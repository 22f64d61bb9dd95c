import Xeos.C99.Memchr
import Xeos.Lib.Scan

/-!
# `memchr` with SSE2

Both functions begin at the last boundary in front of the buffer, clear the bits of the bytes in
front of it in the mask of the first comparison, and add their number to the count.  So the count
is always the distance from the block to the end of the buffer, and a byte that is found behind
the end is told from the others by the count.
-/

namespace Xeos.C99.Memchr

open Lib Lib.Asm

/-- `r` is the first address from `s` on and below `e` with the property, or `NULL` if there is
none. -/
def FirstAt (P : Nat → Prop) (s e r : Nat) : Prop :=
  (∃ t, s ≤ t ∧ t < e ∧ P t ∧ (∀ i, s ≤ i → i < t → ¬ P i) ∧ r = t) ∨
    (∀ i, s ≤ i → i < e → ¬ P i) ∧ r = 0

/-- The function that was called in the state `c₀` has not written to the memory. -/
structure Reading (a : Arch) (c₀ c : Cpu) : Prop extends Inside a c₀ c where
  mem : c.mem = c₀.mem

/-- From the state `c` the function that was called in the state `c₀` returns the first such
address. -/
def ReturnsFirst (a : Arch) (cpuid : X86.Cpuid) (l : Label Part) (c₀ c : Cpu) (P : Nat → Prop)
    (s e : Nat) : Prop :=
  ∃ c', (memchr a).Leaves cpuid l c (c₀.stack c₀.sp) c' ∧ FirstAt P s e c'.regs.ax ∧
    c'.mem = c₀.mem ∧ Unwound a c₀ c'

section

variable {a : Arch} (cpuid : X86.Cpuid) {P : Nat → Prop} {s e b d n y : Nat} {ch : UInt8}
  {c₀ c c' : Cpu} {ws : List Reg}

theorem Reading.kept (h : Reading a c₀ c) (hkept : Kept ws c c')
    (hws : a = .x86_64 → ∀ r ∈ Arch.saved .x86_64, r ∉ ws) : Reading a c₀ c' :=
  ⟨h.toInside.kept hkept hws, hkept.mem.trans h.mem⟩

theorem Arch.two_pow_bits (a : Arch) : 2 ^ a.bits = 2 ^ (a.bits - 1) + 2 ^ (a.bits - 1) := by
  cases a <;> rfl

/-- `.null` -/
theorem null_returns (fn : Bool) (h : Reading a c₀ c) (hnone : ∀ i, s ≤ i → i < e → ¬ P i) :
    ReturnsFirst a cpuid (.fn fn .null) c₀ c P s e := by
  obtain ⟨c₁, hrun, hax⟩ := (memchr a).exists_straight cpuid (.fn fn .null) 0 1 c
    (fun A c' => c'.regs.ax = A.result .xor a.bits c.regs.ax c.regs.ax)
    (by cases a <;> cases fn <;> exact ⟨_, fun _ => rfl, fun _ => rfl⟩)
  have hread : Reading a c₀ c₁ :=
    h.kept (hrun.kept (by cases a <;> cases fn <;> rfl)) (by rintro rfl; cases fn <;> decide)
  obtain ⟨c', hret, hunwound, hmem, hax'⟩ := leave_yields (p := memchr a) cpuid
    (l := .fn fn .null) (i := 1) rfl (by cases a <;> cases fn <;> rfl) hread.toInside
  refine ⟨c', .of_ret (.of_straight (by decide) hrun hret), .inr ⟨hnone, ?_⟩,
    hmem.trans hread.mem, hunwound⟩
  rw [hax', hax]
  exact Nat.xor_self _

/-! ## The search -/

/-- In the search with vectors: the block at `b` is looked at, and `d` bytes of the buffer are
from there on. -/
structure InScan (a : Arch) (ch : UInt8) (b d : Nat) (c₀ c : Cpu) : Prop
    extends Reading a c₀ c where
  char : ∀ j < 16, c.xmms.xmm0 j = ch
  di : c.regs.di = b
  dx : c.regs.dx = d

/-- `.found`, with the mask for the block at `b`. -/
theorem found_returns [DecidablePred P] (h : InScan a ch b d c₀ c)
    (hmask : Marks P s b (c.regs.get (mask a))) (hne : c.regs.get (mask a) ≠ 0)
    (hd : d < 2 ^ (a.bits - 1)) (he : b + d = e) (hlt : e ≤ 2 ^ a.bits)
    (hbefore : ∀ i, s ≤ i → i < b → ¬ P i) :
    ReturnsFirst a cpuid (sse2 .found) c₀ c P s e := by
  obtain ⟨t, hst, hbt, htb, hP, hmin⟩ := hmask.exists_first hne
  have hfirst : ∀ i, s ≤ i → i < t → ¬ P i := by
    intro i hi hlti
    by_cases hib : i < b
    · exact hbefore i hi hib
    · exact hmin i hi (by omega) hlti
  have hpow := Arch.two_pow_bits a
  have hbits : 16 ≤ a.bits := by
    cases a <;> decide
  have hhalf : 16 ≤ 2 ^ (a.bits - 1) := by
    cases a <;> decide
  have hbit : lowestBit a.bits 0 (c.regs.get (mask a)) = t - b :=
    hmask.lowestBit_eq hP hst hbt htb hfirst hbits
  have hbsf : (memchr a).Straight cpuid (sse2 .found) 0 1 c (c.setReg .ax (t - b)) :=
    .of_exec (by cases a <;> rfl) (exec_bsf rfl hne hbit)
  obtain ⟨c₁, hrun₁, hax₁, hdi₁, hflags₁⟩ := (memchr a).exists_straight cpuid (sse2 .found) 1 3
    (c.setReg .ax (t - b))
    (fun A c' => c'.regs.ax = t - b ∧ c'.regs.di = c.regs.di ∧
      c'.flags = A.flags .sub a.bits (A.result .sub a.bits c.regs.dx (t - b)) 0)
    (by cases a <;> exact ⟨_, fun _ => rfl, fun _ => ⟨rfl, rfl, rfl⟩⟩)
  have hread₁ : Reading a c₀ c₁ := (h.toReading.kept (hbsf.kept (by cases a <;> rfl))
    (by rintro rfl; decide)).kept (hrun₁.kept (by cases a <;> rfl)) (by rintro rfl; decide)
  have hle : c₁.flags.holds .le = decide (d ≤ t - b) := by
    rw [hflags₁, h.dx]
    exact Flags.holds_le_difference (by omega) hd (by omega)
  have hjump : ((memchr a).block (sse2 .found))[3]? = some (Instr.jcc .le (sse2 .null)) := by
    cases a <;> rfl
  by_cases hout : d ≤ t - b
  · -- the byte is behind the end of the buffer
    rw [decide_eq_true hout] at hle
    obtain ⟨c', hret, hfirstAt, hrest⟩ := null_returns cpuid true hread₁ (P := P) (s := s) (e := e)
      fun i hi hie => hfirst i hi (by omega)
    exact ⟨c', .of_goto (.of_straight (by decide) hbsf (.of_straight (by decide) hrun₁
      (.of_taken hjump hle))) hret, hfirstAt, hrest⟩
  · rw [decide_eq_false hout] at hle
    obtain ⟨c₂, hrun₂, hax₂⟩ := (memchr a).exists_straight cpuid (sse2 .found) 4 5 c₁
      (fun A c' => c'.regs.ax = A.result .add a.bits c₁.regs.ax c₁.regs.di)
      (by cases a <;> exact ⟨_, fun _ => rfl, fun _ => rfl⟩)
    have hread₂ : Reading a c₀ c₂ :=
      hread₁.kept (hrun₂.kept (by cases a <;> rfl)) (by rintro rfl; decide)
    obtain ⟨c', hret, hunwound, hmem, hax'⟩ := leave_yields (p := memchr a) cpuid
      (l := sse2 .found) (i := 5) rfl (by cases a <;> rfl) hread₂.toInside
    refine ⟨c', .of_ret (.of_straight (by decide) hbsf (.of_straight (by decide) hrun₁
      (.of_passed hjump hle (.of_straight (by decide) hrun₂ hret)))),
      .inl ⟨t, hst, by omega, hP, hfirst, ?_⟩, hmem.trans hread₂.mem, hunwound⟩
    rw [hax', hax₂, hax₁, hdi₁, h.di]
    exact (Flags.sum_of_lt (by omega)).trans (by omega)

/-- `.notfound` goes on to the next block, if it belongs to the buffer. -/
theorem notfound_cases (h : InScan a ch b d c₀ c) (hd : d < 2 ^ (a.bits - 1))
    (hlt : 16 < d → b + 16 < 2 ^ a.bits) :
    (d ≤ 16 ∧ ∃ c', Reading a c₀ c' ∧
      (memchr a).Yields cpuid (sse2 .notfound) 0 c (.goto (sse2 .null) c')) ∨
    (16 < d ∧ ∃ c', InScan a ch (b + 16) (d - 16) c₀ c' ∧
      (memchr a).Yields cpuid (sse2 .notfound) 0 c
        (if d - 16 < 64 then .goto (sse2 .notfound16) c' else .next c')) := by
  have hpow := Arch.two_pow_bits a
  have hhalf : 64 < 2 ^ (a.bits - 1) := by
    cases a <;> decide
  have hpos : 0 < a.bits := by
    cases a <;> decide
  obtain ⟨c₁, hrun₁, hdi₁, hdx₁, hxmm₁, hflags₁⟩ :=
    (memchr a).exists_straight cpuid (sse2 .notfound) 0 3 c
      (fun A c' => c'.regs.di = A.result .add a.bits c.regs.di 16 ∧
        c'.regs.dx = A.result .sub a.bits c.regs.dx 16 ∧ c'.xmms = c.xmms ∧
        c'.flags = A.flags .sub a.bits (A.result .sub a.bits c.regs.dx 16) 0)
      (by cases a <;> exact ⟨_, fun _ => rfl, fun _ => ⟨rfl, rfl, rfl, rfl⟩⟩)
  have hread₁ : Reading a c₀ c₁ :=
    h.toReading.kept (hrun₁.kept (by cases a <;> rfl)) (by rintro rfl; decide)
  have hnull : ((memchr a).block (sse2 .notfound))[3]? = some (Instr.jcc .le (sse2 .null)) := by
    cases a <;> rfl
  have hle : c₁.flags.holds .le = decide (d ≤ 16) := by
    rw [hflags₁, h.dx]
    exact Flags.holds_le_difference hpos hd (by omega)
  by_cases hlast : d ≤ 16
  · rw [decide_eq_true hlast] at hle
    exact .inl ⟨hlast, c₁, hread₁, .of_straight (by decide) hrun₁ (.of_taken hnull hle)⟩
  rw [decide_eq_false hlast] at hle
  replace hdx₁ : c₁.regs.dx = d - 16 := by
    rw [hdx₁, h.dx]
    exact Flags.difference_of_le (by omega) (by omega)
  replace hdi₁ : c₁.regs.di = b + 16 := by
    rw [hdi₁, h.di]
    exact Flags.sum_of_lt (hlt (by omega))
  obtain ⟨c₂, hrun₂, hxmm₂, hflags₂⟩ :=
    (memchr a).exists_straight cpuid (sse2 .notfound) 4 5 c₁
      (fun A c' => c'.xmms = c₁.xmms ∧ c'.flags = A.flags .sub a.bits c₁.regs.dx 64)
      (by cases a <;> exact ⟨_, fun _ => rfl, fun _ => ⟨rfl, rfl⟩⟩)
  have hkept₂ := hrun₂.kept (by cases a <;> rfl)
  have hless : ((memchr a).block (sse2 .notfound))[5]?
      = some (Instr.jcc .l (sse2 .notfound16)) := by
    cases a <;> rfl
  have hl : c₂.flags.holds .l = decide (d - 16 < 64) := by
    rw [hflags₂, hdx₁]
    exact Flags.holds_l_sub hpos (by omega) hhalf
  refine .inr ⟨by omega, c₂, ⟨hread₁.kept hkept₂ (by rintro rfl; decide), ?_, ?_, ?_⟩,
    .of_straight (by decide) hrun₁ (.of_passed hnull hle (.of_straight (by decide) hrun₂ ?_))⟩
  · rw [hxmm₂, hxmm₁]
    exact h.char
  · exact (hkept₂.reg .di (by cases a <;> decide)).trans hdi₁
  · exact (hkept₂.reg .dx (by cases a <;> decide)).trans hdx₁
  · by_cases hshort : d - 16 < 64
    · rw [if_pos hshort]
      exact .of_taken hless (hl.trans (decide_eq_true hshort))
    · rw [if_neg hshort]
      exact .of_passed hless (hl.trans (decide_eq_false hshort)) (.of_end (by cases a <;> rfl))

/-- A vector register has the comparison of the block at `b`. -/
def Compared (m : Memory) (ch : UInt8) (b : Nat) (x : Vec) : Prop :=
  ∃ u v, x = Vec.equal u v ∧ ∀ j < 16, u j = m (b + j) ∧ v j = ch

theorem Compared.marks {m : Memory} {x : Vec} (h : Compared m ch b x) (hs : s ≤ b) :
    Marks (fun t => m t = ch) s b (Vec.signs x 16) := by
  obtain ⟨u, v, rfl, huv⟩ := h
  refine Marks.of_equal hs fun j hj => ?_
  rw [(huv j hj).1, (huv j hj).2]

/-- One look at the mask of a comparison. -/
theorem look_yields {l : Label Part} {i : Nat} {x : Xmm} {rest : List (Instr (Label Part))}
    (hblock : ((memchr a).block l).drop i = look a.bits (mask a) x ++ rest)
    (h : InScan a ch b d c₀ c) (hs : s ≤ b) (hx : Compared c₀.mem ch b (c.xmms.get x)) :
    ∃ c', InScan a ch b d c₀ c' ∧ c'.xmms = c.xmms ∧
      Marks (fun t => c₀.mem t = ch) s b (c'.regs.get (mask a)) ∧
      (c'.regs.get (mask a) ≠ 0 → (memchr a).Yields cpuid l i c (.goto (sse2 .found) c')) ∧
      (c'.regs.get (mask a) = 0 → ∀ out, (memchr a).Yields cpuid l (i + 3) c' out →
        (memchr a).Yields cpuid l i c out) := by
  have hmarks := hx.marks hs
  have hfirst : ((memchr a).block l)[i + 2]? = some (Instr.jcc .ne (sse2 .found)) := by
    rw [← List.getElem?_drop, hblock]
    cases a <;> rfl
  obtain ⟨c', hrun, hxmm, hq, hflags⟩ := (memchr a).exists_straight cpuid l i (i + 2) c
    (fun A c' => c'.xmms = c.xmms ∧ c'.regs.get (mask a) = Vec.signs (c.xmms.get x) 16 ∧
      c'.flags = A.flags .and a.bits (c'.regs.get (mask a)) (c'.regs.get (mask a)))
    (by
      rw [hblock, Nat.add_sub_cancel_left]
      cases a <;> exact ⟨_, fun _ => rfl, fun _ => ⟨rfl, rfl, rfl⟩⟩)
  have hkept : Kept [mask a] c c' := by
    have hlook := hrun.kept (by
      rw [hblock, Nat.add_sub_cancel_left]
      cases a <;> rfl)
    rw [hblock, Nat.add_sub_cancel_left] at hlook
    cases a <;> exact hlook
  have hne : c'.flags.holds .ne = !decide (c'.regs.get (mask a) = 0) := by
    rw [hflags, Flags.holds_ne_and, Nat.and_self]
  refine ⟨c', ⟨h.toReading.kept hkept (by rintro rfl; decide), ?_, ?_, ?_⟩, hxmm, hq ▸ hmarks,
    fun hv => .of_straight (by omega) hrun (.of_taken hfirst ?_),
    fun hv out hout => .of_straight (by omega) hrun (.of_passed hfirst ?_ hout)⟩
  · rw [hxmm]
    exact h.char
  · exact (hkept.reg .di (by cases a <;> decide)).trans h.di
  · exact (hkept.reg .dx (by cases a <;> decide)).trans h.dx
  · rw [hne, decide_eq_false hv]
    rfl
  · rw [hne, decide_eq_true hv]
    rfl

/-- `.notfound_16` looks at one block. -/
theorem notfound16_yields (h : InScan a ch b d c₀ c) (hs : s ≤ b) (hb : b % 16 = 0)
    (hlt : b < 2 ^ a.bits) :
    ∃ c', InScan a ch b d c₀ c' ∧ Marks (fun t => c₀.mem t = ch) s b (c'.regs.get (mask a)) ∧
      (memchr a).Yields cpuid (sse2 .notfound16) 0 c
        (.goto (if c'.regs.get (mask a) = 0 then sse2 .notfound else sse2 .found) c') := by
  have hfirst : ((memchr a).block (sse2 .notfound16))[0]?
      = some (Instr.movdqaLoad .xmm1 .di 0) := by
    cases a <;> rfl
  have hload : (memchr a).Straight cpuid (sse2 .notfound16) 0 1 c
      (c.setXmm .xmm1 fun i => c.mem (b + i)) :=
    .of_exec hfirst (exec_movdqaLoad h.di hlt hb)
  obtain ⟨c₁, hrun₁, hxmm₀, hxmm₁⟩ := (memchr a).exists_straight cpuid (sse2 .notfound16) 1 2
    (c.setXmm .xmm1 fun i => c.mem (b + i))
    (fun _ c' => c'.xmms.xmm0 = c.xmms.xmm0 ∧
      c'.xmms.get .xmm1 = Vec.equal (fun i => c.mem (b + i)) c.xmms.xmm0)
    (by cases a <;> exact ⟨_, fun _ => rfl, fun _ => ⟨rfl, rfl⟩⟩)
  have hkept := (hload.kept (by cases a <;> rfl)).trans (hrun₁.kept (by cases a <;> rfl))
  have hscan₁ : InScan a ch b d c₀ c₁ :=
    ⟨h.toReading.kept hkept (by rintro rfl; decide), fun j hj => by rw [hxmm₀, h.char j hj],
      (hkept.reg .di (by cases a <;> decide)).trans h.di,
      (hkept.reg .dx (by cases a <;> decide)).trans h.dx⟩
  have hlook : ((memchr a).block (sse2 .notfound16)).drop 2
      = look a.bits (mask a) .xmm1 ++ [Instr.jmp (sse2 .notfound)] := by
    cases a <;> rfl
  have hjump : ((memchr a).block (sse2 .notfound16))[5]? = some (Instr.jmp (sse2 .notfound)) := by
    cases a <;> rfl
  obtain ⟨c₂, hscan₂, -, hmarks, hfound, hpassed⟩ := look_yields cpuid hlook hscan₁ hs
    ⟨_, _, hxmm₁, fun j hj => ⟨congrFun h.mem _, h.char j hj⟩⟩
  refine ⟨c₂, hscan₂, hmarks, .of_straight (by decide) hload (.of_straight (by decide) hrun₁ ?_)⟩
  by_cases hq : c₂.regs.get (mask a) = 0
  · rw [if_pos hq]
    exact hpassed hq _ (.of_jmp hjump)
  · rw [if_neg hq]
    exact hfound hq

/-- The search has found something in the block at `b`, and nothing in front of it. -/
def Hit (a : Arch) (ch : UInt8) (s b d : Nat) (c₀ c : Cpu) : Prop :=
  InScan a ch b d c₀ c ∧ Marks (fun t => c₀.mem t = ch) s b (c.regs.get (mask a)) ∧
    c.regs.get (mask a) ≠ 0 ∧ ∀ t, s ≤ t → t < b → c₀.mem t ≠ ch

/-- A look at the block at `b`, and the step to the next one. -/
theorem lookAdvance_cases {l : Label Part} {i : Nat} {x : Xmm} {rest : List (Instr (Label Part))}
    (hblock : ((memchr a).block l).drop i = look a.bits (mask a) x ++ (advance a.bits ++ rest))
    (h : InScan a ch b d c₀ c) (hs : s ≤ b) (hx : Compared c₀.mem ch b (c.xmms.get x))
    (hlt : b + 16 < 2 ^ a.bits) (hd : 16 ≤ d) (hd' : d < 2 ^ a.bits)
    (hbefore : ∀ t, s ≤ t → t < b → c₀.mem t ≠ ch) :
    (∃ c', Hit a ch s b d c₀ c' ∧ (memchr a).Yields cpuid l i c (.goto (sse2 .found) c')) ∨
    (∃ c', InScan a ch (b + 16) (d - 16) c₀ c' ∧ c'.xmms = c.xmms ∧
      (∀ t, s ≤ t → t < b + 16 → c₀.mem t ≠ ch) ∧
      ∀ out, (memchr a).Yields cpuid l (i + 5) c' out → (memchr a).Yields cpuid l i c out) := by
  obtain ⟨c₁, hscan₁, hxmm₁, hmarks, hfound, hpassed⟩ := look_yields cpuid hblock h hs hx
  by_cases hq : c₁.regs.get (mask a) = 0
  · have hdrop : ((memchr a).block l).drop (i + 3) = advance a.bits ++ rest := by
      rw [← List.drop_drop, hblock]
      rfl
    obtain ⟨c₂, hrun₂, hxmm₂, hdi₂, hdx₂⟩ := (memchr a).exists_straight cpuid l (i + 3) (i + 5) c₁
      (fun A c' => c'.xmms = c₁.xmms ∧ c'.regs.di = A.result .add a.bits c₁.regs.di 16 ∧
        c'.regs.dx = A.result .sub a.bits c₁.regs.dx 16)
      (by
        rw [hdrop, show i + 5 - (i + 3) = 2 by omega]
        cases a <;> exact ⟨_, fun _ => rfl, fun _ => ⟨rfl, rfl, rfl⟩⟩)
    have hkept : Kept [.di, .dx] c₁ c₂ := by
      have hadvance := hrun₂.kept (by
        rw [hdrop, show i + 5 - (i + 3) = 2 by omega]
        cases a <;> rfl)
      rw [hdrop, show i + 5 - (i + 3) = 2 by omega] at hadvance
      cases a <;> exact hadvance
    refine .inr ⟨c₂, ⟨hscan₁.toReading.kept hkept (by rintro rfl; decide), ?_, ?_, ?_⟩,
      hxmm₂.trans hxmm₁, ?_, fun out hout => hpassed hq out (.of_straight (by omega) hrun₂ hout)⟩
    · rw [hxmm₂]
      exact hscan₁.char
    · rw [hdi₂, hscan₁.di]
      exact Flags.sum_of_lt hlt
    · rw [hdx₂, hscan₁.dx]
      exact Flags.difference_of_le hd hd'
    · intro t hst hlt'
      by_cases htb : t < b
      · exact hbefore t hst htb
      · exact fun hch => hmarks.ne_zero hch hst (by omega) hlt' hq
  · exact .inl ⟨c₁, ⟨hscan₁, hmarks, hq, hbefore⟩, hfound hq⟩

theorem load_straight {l : Label Part} {i k : Nat} {x : Xmm}
    (hi : ((memchr a).block l)[i]? = some (.movdqaLoad x .di k)) (hdi : c.regs.di = b)
    (hlt : b + k < 2 ^ a.bits) (hb : (b + k) % 16 = 0) :
    (memchr a).Straight cpuid l i (i + 1) c (c.setXmm x fun j => c.mem (b + k + j)) :=
  .of_exec hi (exec_movdqaLoad (congrArg (· + k) hdi) hlt hb)

/-- `.notfound_64` compares four blocks. -/
theorem compare64 (h : InScan a ch b d c₀ c) (hb : b % 16 = 0) (hlt : b + 64 ≤ 2 ^ a.bits) :
    ∃ c', InScan a ch b d c₀ c' ∧ Compared c₀.mem ch b c'.xmms.xmm1 ∧
      Compared c₀.mem ch (b + 16) c'.xmms.xmm2 ∧ Compared c₀.mem ch (b + 16 + 16) c'.xmms.xmm3 ∧
      Compared c₀.mem ch (b + 16 + 16 + 16) c'.xmms.xmm4 ∧
      ∀ out, (memchr a).Yields cpuid (sse2 .notfound64) 8 c' out →
        (memchr a).Yields cpuid (sse2 .notfound64) 0 c out := by
  have hload₁ := load_straight cpuid (a := a) (l := sse2 .notfound64) (i := 0) (k := 0) (x := .xmm1)
    (by cases a <;> rfl) h.di (by omega) (by omega)
  have hload₂ := load_straight cpuid (a := a) (l := sse2 .notfound64) (i := 1) (k := 16) (x := .xmm2)
    (c := c.setXmm .xmm1 fun j => c.mem (b + 0 + j)) (by cases a <;> rfl) h.di (by omega)
    (by omega)
  have hload₃ := load_straight cpuid (a := a) (l := sse2 .notfound64) (i := 2) (k := 32) (x := .xmm3)
    (c := (c.setXmm .xmm1 fun j => c.mem (b + 0 + j)).setXmm .xmm2 fun j => c.mem (b + 16 + j))
    (by cases a <;> rfl) h.di (by omega) (by omega)
  have hload₄ := load_straight cpuid (a := a) (l := sse2 .notfound64) (i := 3) (k := 48) (x := .xmm4)
    (c := ((c.setXmm .xmm1 fun j => c.mem (b + 0 + j)).setXmm .xmm2 fun j =>
      c.mem (b + 16 + j)).setXmm .xmm3 fun j => c.mem (b + 32 + j))
    (by cases a <;> rfl) h.di (by omega) (by omega)
  obtain ⟨c', hrun, hxmm₀, hxmm₁, hxmm₂, hxmm₃, hxmm₄⟩ :=
    (memchr a).exists_straight cpuid (sse2 .notfound64) 4 8
      ((((c.setXmm .xmm1 fun j => c.mem (b + 0 + j)).setXmm .xmm2 fun j =>
        c.mem (b + 16 + j)).setXmm .xmm3 fun j => c.mem (b + 32 + j)).setXmm .xmm4 fun j =>
        c.mem (b + 48 + j))
      (fun _ c' => c'.xmms.xmm0 = c.xmms.xmm0 ∧
        c'.xmms.xmm1 = Vec.equal (fun j => c.mem (b + 0 + j)) c.xmms.xmm0 ∧
        c'.xmms.xmm2 = Vec.equal (fun j => c.mem (b + 16 + j)) c.xmms.xmm0 ∧
        c'.xmms.xmm3 = Vec.equal (fun j => c.mem (b + 32 + j)) c.xmms.xmm0 ∧
        c'.xmms.xmm4 = Vec.equal (fun j => c.mem (b + 48 + j)) c.xmms.xmm0)
      (by cases a <;> exact ⟨_, fun _ => rfl, fun _ => ⟨rfl, rfl, rfl, rfl, rfl⟩⟩)
  have hkept := ((((hload₁.kept (by cases a <;> rfl)).trans (hload₂.kept
    (by cases a <;> rfl))).trans (hload₃.kept (by cases a <;> rfl))).trans (hload₄.kept
    (by cases a <;> rfl))).trans (hrun.kept (by cases a <;> rfl))
  have hcompared : ∀ {k : Nat} {x : Vec}, x = Vec.equal (fun j => c.mem (b + k + j)) c.xmms.xmm0 →
      Compared c₀.mem ch (b + k) x :=
    fun hx => ⟨_, _, hx, fun j hj => ⟨congrFun h.mem _, h.char j hj⟩⟩
  refine ⟨c', ⟨h.toReading.kept hkept (by rintro rfl; decide),
    fun j hj => by rw [hxmm₀, h.char j hj], (hkept.reg .di (by cases a <;> decide)).trans h.di,
    (hkept.reg .dx (by cases a <;> decide)).trans h.dx⟩, hcompared hxmm₁, hcompared hxmm₂,
    hcompared hxmm₃, hcompared hxmm₄, fun out hout => ?_⟩
  exact .of_straight (by decide) hload₁ (.of_straight (by decide) hload₂ (.of_straight (by decide)
    hload₃ (.of_straight (by decide) hload₄ (.of_straight (by decide) hrun hout))))

/-- `.notfound_64` finds something in one of four blocks, or goes on behind them. -/
theorem notfound64_cases (h : InScan a ch b d c₀ c) (hs : s ≤ b) (hb : b % 16 = 0)
    (hlt : b + 64 ≤ 2 ^ a.bits) (hd : 64 ≤ d) (hd' : d < 2 ^ a.bits)
    (hbefore : ∀ t, s ≤ t → t < b → c₀.mem t ≠ ch) :
    (∃ b' d' c', b' + d' = b + d ∧ d' ≤ d ∧ Hit a ch s b' d' c₀ c' ∧
      (memchr a).Yields cpuid (sse2 .notfound64) 0 c (.goto (sse2 .found) c')) ∨
    (∃ c', InScan a ch (b + 48) (d - 48) c₀ c' ∧
      (∀ t, s ≤ t → t < b + 48 + 16 → c₀.mem t ≠ ch) ∧
      (memchr a).Yields cpuid (sse2 .notfound64) 0 c (.goto (sse2 .notfound) c')) := by
  obtain ⟨c₁, hscan₁, hx₁, hx₂, hx₃, hx₄, hrun₁⟩ := compare64 cpuid h hb hlt
  have hblock₁ : ((memchr a).block (sse2 .notfound64)).drop 8
      = look a.bits (mask a) .xmm1 ++ (advance a.bits ++
        ((memchr a).block (sse2 .notfound64)).drop 13) := by
    cases a <;> rfl
  have hblock₂ : ((memchr a).block (sse2 .notfound64)).drop 13
      = look a.bits (mask a) .xmm2 ++ (advance a.bits ++
        ((memchr a).block (sse2 .notfound64)).drop 18) := by
    cases a <;> rfl
  have hblock₃ : ((memchr a).block (sse2 .notfound64)).drop 18
      = look a.bits (mask a) .xmm3 ++ (advance a.bits ++
        ((memchr a).block (sse2 .notfound64)).drop 23) := by
    cases a <;> rfl
  have hblock₄ : ((memchr a).block (sse2 .notfound64)).drop 23
      = look a.bits (mask a) .xmm4 ++ [Instr.jmp (sse2 .notfound)] := by
    cases a <;> rfl
  have hjump : ((memchr a).block (sse2 .notfound64))[26]? = some (Instr.jmp (sse2 .notfound)) := by
    cases a <;> rfl
  rcases lookAdvance_cases cpuid hblock₁ hscan₁ hs hx₁ (by omega) (by omega) hd' hbefore with
    ⟨c', hhit, hyields⟩ | ⟨c₂, hscan₂, hxmm₂, hnone₂, hrun₂⟩
  · exact .inl ⟨b, d, c', rfl, le_rfl, hhit, hrun₁ _ hyields⟩
  rcases lookAdvance_cases cpuid hblock₂ hscan₂ (by omega) (by rw [hxmm₂]; exact hx₂) (by omega)
    (by omega) (by omega) hnone₂ with ⟨c', hhit, hyields⟩ | ⟨c₃, hscan₃, hxmm₃, hnone₃, hrun₃⟩
  · exact .inl ⟨_, _, c', by omega, by omega, hhit, hrun₁ _ (hrun₂ _ hyields)⟩
  rcases lookAdvance_cases cpuid hblock₃ hscan₃ (by omega) (by rw [hxmm₃, hxmm₂]; exact hx₃)
    (by omega) (by omega) (by omega) hnone₃ with
    ⟨c', hhit, hyields⟩ | ⟨c₄, hscan₄, hxmm₄, hnone₄, hrun₄⟩
  · exact .inl ⟨_, _, c', by omega, by omega, hhit, hrun₁ _ (hrun₂ _ (hrun₃ _ hyields))⟩
  obtain ⟨c₅, hscan₅, -, hmarks, hfound, hpassed⟩ := look_yields cpuid hblock₄ hscan₄
    (show s ≤ b + 16 + 16 + 16 by omega) (by rw [hxmm₄, hxmm₃, hxmm₂]; exact hx₄)
  have hrun := fun out hout => hrun₁ out (hrun₂ out (hrun₃ out (hrun₄ out hout)))
  by_cases hq : c₅.regs.get (mask a) = 0
  · refine .inr ⟨c₅, ?_, ?_, hrun _ (hpassed hq _ (.of_jmp hjump))⟩
    · rw [show b + 48 = b + 16 + 16 + 16 by omega, show d - 48 = d - 16 - 16 - 16 by omega]
      exact hscan₅
    · intro t hst htlt
      by_cases htb : t < b + 16 + 16 + 16
      · exact hnone₄ t hst htb
      · exact fun hch => hmarks.ne_zero hch hst (by omega) (by omega) hq
  · exact .inl ⟨_, _, c₅, by omega, by omega, ⟨hscan₅, hmarks, hq, hnone₄⟩, hrun _ (hfound hq)⟩

/-- `.notfound`, behind the block at `b`. -/
theorem notfound_returns (h : InScan a ch b d c₀ c) (hs : s ≤ b + 16) (hb : b % 16 = 0)
    (hd : d < 2 ^ (a.bits - 1)) (he : b + d = e) (hlt : e ≤ 2 ^ a.bits)
    (hbefore : ∀ t, s ≤ t → t < b + 16 → c₀.mem t ≠ ch) :
    ReturnsFirst a cpuid (sse2 .notfound) c₀ c (fun t => c₀.mem t = ch) s e := by
  have hpow := Arch.two_pow_bits a
  -- the induction is on the rest of the buffer
  induction hk : d using Nat.strong_induction_on generalizing b d c with
  | _ k ih =>
    subst hk
    have hfound : ∀ {b' d' c'}, b' + d' = b + d → d' ≤ d → Hit a ch s b' d' c₀ c' →
        ReturnsFirst a cpuid (sse2 .found) c₀ c' (fun t => c₀.mem t = ch) s e := by
      rintro b' d' c' hsum hle ⟨hscan, hmarks, hq, hnone⟩
      exact found_returns cpuid hscan hmarks hq (by omega) (by omega) hlt hnone
    rcases notfound_cases cpuid h hd (by omega) with
      ⟨hlast, c₁, hread₁, hyields₁⟩ | ⟨hmore, c₁, hscan₁, hyields₁⟩
    · obtain ⟨d, hret, hrest⟩ := null_returns cpuid true hread₁ (P := fun t => c₀.mem t = ch)
        (s := s) (e := e) fun t hst hte => hbefore t hst (by omega)
      exact ⟨d, .of_goto hyields₁ hret, hrest⟩
    by_cases hshort : d - 16 < 64
    · rw [if_pos hshort] at hyields₁
      obtain ⟨c₂, hscan₂, hmarks₂, hyields₂⟩ := notfound16_yields cpuid hscan₁ hs (by omega)
        (by omega)
      by_cases hq : c₂.regs.get (mask a) = 0
      · rw [if_pos hq] at hyields₂
        obtain ⟨d, hret, hrest⟩ := ih (d - 16) (by omega) hscan₂ (by omega) (by omega)
          (by omega) (by omega) (fun t hst htlt => by
            by_cases htb : t < b + 16
            · exact hbefore t hst htb
            · exact fun hch => hmarks₂.ne_zero hch hst (by omega) htlt hq) rfl
        exact ⟨d, .of_goto hyields₁ (.of_goto hyields₂ hret), hrest⟩
      · rw [if_neg hq] at hyields₂
        obtain ⟨d, hret, hrest⟩ := hfound (by omega) (by omega) ⟨hscan₂, hmarks₂, hq, hbefore⟩
        exact ⟨d, .of_goto hyields₁ (.of_goto hyields₂ hret), hrest⟩
    · rw [if_neg hshort] at hyields₁
      rcases notfound64_cases cpuid hscan₁ hs (by omega) (by omega) (by omega) (by omega) hbefore
        with ⟨b', d', c₂, hsum, hle, hhit, hyields₂⟩ | ⟨c₂, hscan₂, hnone₂, hyields₂⟩
      · obtain ⟨d, hret, hrest⟩ := hfound (by omega) (by omega) hhit
        exact ⟨d, .of_next hyields₁ rfl (.of_goto hyields₂ hret), hrest⟩
      · obtain ⟨d, hret, hrest⟩ := ih (d - 16 - 48) (by omega) hscan₂ (by omega) (by omega)
          (by omega) (by omega) hnone₂ rfl
        exact ⟨d, .of_next hyields₁ rfl (.of_goto hyields₂ hret), hrest⟩

/-! ## The entry -/

/-- `punpcklbw`, `punpcklbw` and `pshufd` spread the low byte of a word. -/
theorem broadcast (w v : Nat) (hw : 8 ≤ w) (i : Nat) :
    Vec.interleave (Vec.interleave (Vec.ofNat w v) (Vec.ofNat w v))
      (Vec.interleave (Vec.ofNat w v) (Vec.ofNat w v)) (Vec.shuffled 0 i) = UInt8.ofNat v := by
  have hshuffled : Vec.shuffled 0 i = i % 4 := by
    rw [Vec.shuffled, Nat.zero_div, Nat.zero_mod, Nat.mul_zero, Nat.zero_add]
  have hself : ∀ (x : Vec) k, Vec.interleave x x k = x (k / 2) := fun x k => ite_self _
  rw [hself, hself, hshuffled, show i % 4 / 2 / 2 = 0 by omega, Vec.ofNat, if_pos (by omega),
    pow_zero, Nat.div_one]

/-- The tests of the arguments. -/
theorem arguments_yields (h : Entered a s y n c₀ c) (hs : s ≠ 0) :
    ∃ c', Kept [] c c' ∧
      (n = 0 → (memchr a).Yields cpuid (sse2 .entry) a.enterLength c (.goto (sse2 .null) c')) ∧
      (n ≠ 0 → ∀ out, (memchr a).Yields cpuid (sse2 .entry) (a.enterLength + 4) c' out →
        (memchr a).Yields cpuid (sse2 .entry) a.enterLength c out) := by
  obtain ⟨c₁, hrun₁, hdx₁, hflags₁⟩ :=
    (memchr a).exists_straight cpuid (sse2 .entry) a.enterLength (a.enterLength + 1) c
      (fun A c' => c'.regs.dx = c.regs.dx ∧ c'.flags = A.flags .and a.bits c.regs.di c.regs.di)
      (by cases a <;> exact ⟨_, fun _ => rfl, fun _ => ⟨rfl, rfl⟩⟩)
  obtain ⟨c₂, hrun₂, hflags₂⟩ :=
    (memchr a).exists_straight cpuid (sse2 .entry) (a.enterLength + 2) (a.enterLength + 3) c₁
      (fun A c' => c'.flags = A.flags .and a.bits c₁.regs.dx c₁.regs.dx)
      (by cases a <;> exact ⟨_, fun _ => rfl, fun _ => rfl⟩)
  have hjump₁ : ((memchr a).block (sse2 .entry))[a.enterLength + 1]?
      = some (Instr.jcc .e (sse2 .null)) := by
    cases a <;> rfl
  have hjump₂ : ((memchr a).block (sse2 .entry))[a.enterLength + 3]?
      = some (Instr.jcc .e (sse2 .null)) := by
    cases a <;> rfl
  have hnull : c₁.flags.holds .e = false := by
    rw [hflags₁, Flags.holds_e_and_self, h.di]
    exact decide_eq_false hs
  have hsize : c₂.flags.holds .e = decide (n = 0) := by
    rw [hflags₂, Flags.holds_e_and_self, hdx₁, h.dx]
  have hkept : Kept [] c c₂ := by
    have hboth := (hrun₁.kept (by cases a <;> rfl)).trans (hrun₂.kept (by cases a <;> rfl))
    cases a <;> exact hboth
  refine ⟨c₂, hkept, fun hn => ?_, fun hn out hout => ?_⟩
  · exact .of_straight (by omega) hrun₁ (.of_passed hjump₁ hnull (.of_straight (by omega) hrun₂
      (.of_taken hjump₂ (hsize.trans (decide_eq_true hn)))))
  · exact .of_straight (by omega) hrun₁ (.of_passed hjump₁ hnull (.of_straight (by omega) hrun₂
      (.of_passed hjump₂ (hsize.trans (decide_eq_false hn)) hout)))

/-- The first block, from the boundary in front of the buffer. -/
theorem firstBlock_yields (h : Reading a c₀ c) (hdi : c.regs.di = s) (hdx : c.regs.dx = n)
    (hch : UInt8.ofNat c.regs.si = ch) (hlt : s < 2 ^ a.bits) (hn : n + 16 < 2 ^ a.bits) :
    ∃ c', InScan a ch (s / 16 * 16) (n + s % 16) c₀ c' ∧
      Marks (fun t => c₀.mem t = ch) s (s / 16 * 16) (c'.regs.get (mask a)) ∧
      (memchr a).Yields cpuid (sse2 .entry) (a.enterLength + 4) c
        (if c'.regs.get (mask a) = 0 then .next c' else .goto (sse2 .found) c') := by
  subst hdi
  have hand : alu.result .and a.bits c.regs.di (2 ^ a.bits - 16) = c.regs.di / 16 * 16 :=
    and_high_mask (k := 4) hlt (by cases a <;> decide)
  have hbits : 16 ≤ a.bits := by
    cases a <;> decide
  obtain ⟨c₁, hrun₁, hdi₁, hsi₁, hdx₁, hxmm₁⟩ :=
    (memchr a).exists_straight cpuid (sse2 .entry) (a.enterLength + 4) (a.enterLength + 8) c
      (fun A c' => c'.regs.di = A.result .and a.bits c.regs.di (2 ^ a.bits - 16) ∧
        c'.regs.si = c.regs.di ∧ c'.regs.dx = c.regs.dx ∧
        c'.xmms.xmm0 = Vec.ofNat a.bits (A.result .and a.bits c.regs.si 0xFF))
      (by cases a <;> exact ⟨_, fun _ => rfl, fun _ => ⟨rfl, rfl, rfl, rfl⟩⟩)
  obtain ⟨c₂, hrun₂, hregs₂, hxmm₂⟩ :=
    (memchr a).exists_straight cpuid (sse2 .entry) (a.enterLength + 8) (a.enterLength + 11) c₁
      (fun _ c' => c'.regs = c₁.regs ∧ ∀ i, c'.xmms.xmm0 i =
        Vec.interleave (Vec.interleave c₁.xmms.xmm0 c₁.xmms.xmm0)
          (Vec.interleave c₁.xmms.xmm0 c₁.xmms.xmm0) (Vec.shuffled 0 i))
      (by cases a <;> exact ⟨_, fun _ => rfl, fun _ => ⟨rfl, fun _ => rfl⟩⟩)
  have hkept₂ := (hrun₁.kept (by cases a <;> rfl)).trans (hrun₂.kept (by cases a <;> rfl))
  have hread₂ : Reading a c₀ c₂ := h.kept hkept₂ (by rintro rfl; decide)
  have hchar₂ : ∀ j, c₂.xmms.xmm0 j = ch := by
    intro j
    have hlow : alu.result .and a.bits c.regs.si 0xFF = c.regs.si % 2 ^ 8 :=
      Nat.and_two_pow_sub_one_eq_mod c.regs.si 8
    rw [hxmm₂, hxmm₁, broadcast _ _ (show 8 ≤ a.bits by omega), hlow, ← hch]
    exact UInt8.ofNat_mod_size
  have hblock₂ : c₂.regs.di = c.regs.di / 16 * 16 := by
    rw [hregs₂, hdi₁, hand]
  have hload := load_straight cpuid (a := a) (l := sse2 .entry) (i := a.enterLength + 11) (k := 0)
    (x := .xmm1) (by cases a <;> rfl) hblock₂ (by omega) (by omega)
  obtain ⟨c₃, hrun₃, hxmm₃, hq₃, hcx₃⟩ :=
    (memchr a).exists_straight cpuid (sse2 .entry) (a.enterLength + 12) (a.enterLength + 16)
      (c₂.setXmm .xmm1 fun j => c₂.mem (c.regs.di / 16 * 16 + 0 + j))
      (fun A c' => c'.xmms.xmm0 = c₂.xmms.xmm0 ∧ c'.regs.get (mask a) = Vec.signs (Vec.equal
          (fun j => c₂.mem (c.regs.di / 16 * 16 + 0 + j)) c₂.xmms.xmm0) 16 ∧
        c'.regs.cx = A.result .sub a.bits c₂.regs.si c₂.regs.di)
      (by cases a <;> exact ⟨_, fun _ => rfl, fun _ => ⟨rfl, rfl, rfl⟩⟩)
  obtain ⟨c₄, hrun₄, hxmm₄, hax₄⟩ :=
    (memchr a).exists_straight cpuid (sse2 .entry) (a.enterLength + 16) (a.enterLength + 19) c₃
      (fun A c' => c'.xmms = c₃.xmms ∧ c'.regs.ax = A.shl a.bits
        (A.not a.bits (A.result .xor a.bits c₃.regs.ax c₃.regs.ax)) (c₃.regs.cx % a.bits))
      (by cases a <;> exact ⟨_, fun _ => rfl, fun _ => ⟨rfl, rfl⟩⟩)
  obtain ⟨c₅, hrun₅, hxmm₅, hdx₅, hq₅, hflags₅⟩ :=
    (memchr a).exists_straight cpuid (sse2 .entry) (a.enterLength + 19) (a.enterLength + 21) c₄
      (fun A c' => c'.xmms = c₄.xmms ∧ c'.regs.dx = A.result .add a.bits c₄.regs.dx c₄.regs.cx ∧
        c'.regs.get (mask a) = A.result .and a.bits (c₄.regs.get (mask a)) c₄.regs.ax ∧
        c'.flags = A.flags .and a.bits (c₄.regs.get (mask a)) c₄.regs.ax)
      (by cases a <;> exact ⟨_, fun _ => rfl, fun _ => ⟨rfl, rfl, rfl, rfl⟩⟩)
  have hkept₄ := hrun₄.kept (by cases a <;> rfl)
  have hkept := (((hload.kept (by cases a <;> rfl)).trans (hrun₃.kept (by cases a <;> rfl))).trans
    hkept₄).trans (hrun₅.kept (by cases a <;> rfl))
  have hread : Reading a c₀ c₅ := hread₂.kept hkept (by rintro rfl; decide)
  have hdx₄ : c₄.regs.dx = n := by
    have hkept₃ := hrun₃.kept (by cases a <;> rfl)
    have hdx₃ : c₃.regs.dx = c₂.regs.dx := hkept₃.reg .dx (by cases a <;> decide)
    have hdx : c₄.regs.dx = c₃.regs.dx := hkept₄.reg .dx (by cases a <;> decide)
    rw [hdx, hdx₃, hregs₂, hdx₁]
    assumption
  have hcx₄ : c₄.regs.cx = c.regs.di % 16 := by
    have hcx : c₄.regs.cx = c₃.regs.cx := hkept₄.reg .cx (by cases a <;> decide)
    have hdiff : difference a.bits c.regs.di (c.regs.di / 16 * 16)
        = c.regs.di - c.regs.di / 16 * 16 := Flags.difference_of_le (by omega) hlt
    rw [hcx, hcx₃, hblock₂, hregs₂, hsi₁]
    exact hdiff.trans (by omega)
  have hmask₄ : c₄.regs.get (mask a) = Vec.signs (Vec.equal
      (fun j => c₂.mem (c.regs.di / 16 * 16 + 0 + j)) c₂.xmms.xmm0) 16 :=
    (hkept₄.reg (mask a) (by cases a <;> decide)).trans hq₃
  have hones : c₄.regs.ax
      = alu.shl a.bits (alu.not a.bits 0) (c.regs.di - c.regs.di / 16 * 16) := by
    have hxor : alu.result .xor a.bits c₃.regs.ax c₃.regs.ax = 0 := Nat.xor_self _
    have hcx : c₄.regs.cx = c₃.regs.cx := hkept₄.reg .cx (by cases a <;> decide)
    rw [hax₄, hxor, ← hcx, hcx₄, Nat.mod_eq_of_lt (show c.regs.di % 16 < a.bits by omega)]
    congr 1
    omega
  have hmarks : Marks (fun t => c₀.mem t = ch) c.regs.di (c.regs.di / 16 * 16)
      (c₅.regs.get (mask a)) := by
    rw [hq₅, hmask₄, hones]
    refine Marks.masked hbits (by omega) fun j _ => ?_
    rw [hchar₂, hread₂.mem, Nat.add_zero]
  refine ⟨c₅, ⟨hread, fun j _ => ?_, ?_, ?_⟩, hmarks, .of_straight (by omega) hrun₁
    (.of_straight (by omega) hrun₂ (.of_straight (by omega) hload (.of_straight (by omega) hrun₃
      (.of_straight (by omega) hrun₄ (.of_straight (by omega) hrun₅ ?_)))))⟩
  · rw [hxmm₅, hxmm₄, hxmm₃]
    exact hchar₂ j
  · exact (hkept.reg .di (by cases a <;> decide)).trans hblock₂
  · rw [hdx₅, hdx₄, hcx₄]
    exact Flags.sum_of_lt (by omega)
  · have hjump : ((memchr a).block (sse2 .entry))[a.enterLength + 21]?
        = some (Instr.jcc .ne (sse2 .found)) := by
      cases a <;> rfl
    refine .of_jne hjump (by cases a <;> rfl) ?_
    rw [hflags₅, Flags.holds_ne_and, hq₅]
    rfl

/-- `_memchr32_sse2` and `_memchr64_sse2` return the first occurrence. -/
theorem sse2_returns (h : Call a s y n c) (hch : UInt8.ofNat y = ch) (hs : s ≠ 0)
    (hlt : s + n ≤ 2 ^ a.bits) (hn : n + 16 < 2 ^ (a.bits - 1)) :
    ReturnsFirst a cpuid (sse2 .entry) c c (fun t => c.mem t = ch) s (s + n) := by
  have hpow := Arch.two_pow_bits a
  have hblock : (memchr a).block (sse2 .entry)
      = a.enter ++ ((memchr a).block (sse2 .entry)).drop a.enterLength := by
    cases a <;> rfl
  obtain ⟨c₁, hrun₁, hentered⟩ := enter_straight cpuid rfl hblock h
  obtain ⟨c₂, hkept₂, hnone, hsome⟩ := arguments_yields cpuid hentered hs
  have hread₁ : Reading a c c₁ := ⟨hentered.toInside, hentered.mem⟩
  have hread₂ := hread₁.kept hkept₂ (by rintro rfl; decide)
  by_cases hzero : n = 0
  · obtain ⟨d, hret, hrest⟩ := null_returns cpuid true hread₂ (P := fun t => c.mem t = ch)
      (s := s) (e := s + n) fun t hst hte => absurd hte (by omega)
    exact ⟨d, .of_goto (.of_straight (Nat.zero_le _) hrun₁ (hnone hzero)) hret, hrest⟩
  have hdi₂ : c₂.regs.di = s := (hkept₂.reg .di (by decide)).trans hentered.di
  have hdx₂ : c₂.regs.dx = n := (hkept₂.reg .dx (by decide)).trans hentered.dx
  have hch₂ : UInt8.ofNat c₂.regs.si = ch := by
    rw [show c₂.regs.si = y from (hkept₂.reg .si (by decide)).trans hentered.si, hch]
  obtain ⟨c₃, hscan, hmarks, hyields⟩ :=
    firstBlock_yields cpuid hread₂ hdi₂ hdx₂ hch₂ (by omega) (by omega)
  have hentry := fun out hout =>
    Program.Yields.of_straight (Nat.zero_le _) hrun₁ (hsome hzero out hout)
  have hfirst : ∀ t, s ≤ t → t < s / 16 * 16 → c.mem t ≠ ch := fun t hst ht =>
    absurd ht (by omega)
  by_cases hq : c₃.regs.get (mask a) = 0
  · rw [if_pos hq] at hyields
    obtain ⟨d, hret, hrest⟩ := notfound_returns cpuid hscan (s := s) (e := s + n) (by omega)
      (by omega) (by omega) (by omega) hlt fun t hst htlt hch =>
        hmarks.ne_zero hch hst (by omega) htlt hq
    exact ⟨d, .of_next (hentry _ hyields) rfl hret, hrest⟩
  · rw [if_neg hq] at hyields
    obtain ⟨d, hret, hrest⟩ := found_returns cpuid hscan hmarks hq (e := s + n) (by omega)
      (by omega) hlt hfirst
    exact ⟨d, .of_goto (hentry _ hyields) hret, hrest⟩

end

/-- The search of an `A` from an odd address. -/
def searchCpu : Cpu where
  regs := ⟨0, 0, 0, 8, 0x41, 0x1001, 0, 0, 0, 0, 0, 0, 0, 0⟩
  xmms := ⟨fun _ => 0, fun _ => 0, fun _ => 0, fun _ => 0, fun _ => 0, fun _ => 0, fun _ => 0,
    fun _ => 0⟩
  bp := .word 0
  sp := 0
  stack _ := .caller
  mem a := if a = 0x1003 then 0x41 else 0
  status := 2 ^ 64 - 1
  flags := ⟨false, false, false, false⟩

theorem sse2_returns_letter : ReturnsFirst .x86_64 (fun _ => ⟨0, 0, 0, 0⟩) (sse2 .entry) searchCpu
    searchCpu (fun t => searchCpu.mem t = 0x41) 0x1001 (0x1001 + 8) :=
  sse2_returns _ ⟨rfl, rfl, rfl, rfl⟩ rfl (by decide) (by decide) (by decide)

end Xeos.C99.Memchr
