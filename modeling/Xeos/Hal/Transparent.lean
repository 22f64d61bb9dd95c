import Xeos.Hal.StubSpec

/-!
# What an interrupt leaves to the interrupted code

Two results about the stubs.  An interrupt whose handler does not touch the
register structure is transparent, unless the processor pushed an error code:
no stub takes it off the stack, and the `iret` loads the frame one word too
high.  The members of the structure are the registers of the same name on
x86-64; on i386 the structure has `esi` and `edi` the other way round.
-/

namespace Xeos.Hal.Stub

open Lib Lib.Stack

namespace Arch

variable {a : Arch} {n : UInt8} {c c' : Context a} {err : Option a.Word}

/-! ## The end of the stub -/

theorem swap_named {r : Reg} (hr : r ∈ a.named) :
    r ≠ .sp ∧ r ∈ a.fields ∧ a.swap r ∈ a.named ∧ a.swap (a.swap r) = r := by
  revert hr
  cases a <;> cases r <;> decide

theorem iret_reg (m : a.Machine) (ss : a.Word) {r : Reg} (hr : r ≠ .sp) :
    (a.iret m ss).machine.reg r = m.reg r := by
  cases a with
  | i386 => exact Function.update_of_ne hr _ _
  | x86_64 => exact Function.update_of_ne hr _ _

theorem iret_mem (m : a.Machine) (ss : a.Word) : (a.iret m ss).machine.mem = m.mem := by
  cases a <;> rfl

/-- The `iret` on the frame of an interrupt without an error code. -/
theorem iret_of_frame {m : a.Machine} (hsp : m.reg .sp = (a.enter c none).reg .sp)
    (h : Words a.slot m.mem (m.reg .sp) (a.frame c none)) :
    (a.iret m c.ss).ip = c.ip ∧ (a.iret m c.ss).flags = c.flags ∧
      (a.iret m c.ss).machine.reg .sp = c.machine.reg .sp := by
  cases a with
  | i386 =>
    have hip := h 0 (by simp [frame])
    rw [wordAt_zero] at hip
    refine ⟨hip, h 2 (by simp [frame]), ?_⟩
    rw [enter_sp] at hsp
    simp only [iret, Function.update_self, hsp]
    exact (wordAt_below_of_le _ (Nat.le_refl 3)).trans (below_zero _)
  | x86_64 =>
    have hip := h 0 (by simp [frame])
    rw [wordAt_zero] at hip
    refine ⟨hip, h 2 (by simp [frame]), ?_⟩
    simp only [iret, Function.update_self]
    exact h 3 (by simp [frame])

/-- With an error code the word of the code segment is where the flags are read. -/
theorem iret_of_error {m : a.Machine} {e ss : a.Word}
    (h : Words a.slot m.mem (m.reg .sp) (a.frame c (some e))) :
    (a.iret m ss).flags = c.cs := by
  cases a with
  | i386 => exact h 2 (by simp [frame])
  | x86_64 => exact h 2 (by simp [frame])

theorem given_named {r : Reg} (hr : r ∈ a.named) : a.given c err r = c.machine.reg r :=
  Function.update_of_ne (swap_named hr).1 _ _

theorem resumes_nil {f : Handler a} (h : a.Resumes n (a.frame c err).length f c err c') :
    ∃ mem mem' m, f n (a.registersAt c err) mem mem' ∧
      (∀ r ∈ a.fields,
        a.field mem (a.registersAt c err) r = a.given c err (a.swap r)) ∧
      c' = a.iret m c.ss ∧
      (a.field mem' (a.registersAt c err) .sp = a.field mem (a.registersAt c err) .sp →
        m.reg .sp = (a.enter c err).reg .sp ∧
        Words a.slot m.mem (m.reg .sp) (a.frame c err) ∧
        ∀ r ∈ a.named, m.reg r = a.field mem' (a.registersAt c err) (a.swap r)) := by
  have hfit : (24 + ([] ++ [] : List a.Word).length) * a.slot < 2 ^ a.width := by
    cases a <;> decide
  have hstack : Words a.slot c.machine.mem (a.aligned (c.machine.reg .sp)) ([] ++ []) :=
    words_nil _
  obtain ⟨mem, mem', m, hf, hwords, hc', hend⟩ :=
    resumes_spec h hstack hfit (Nat.le_of_eq (by rw [List.append_nil]))
  rw [List.append_nil] at hend
  exact ⟨mem, mem', m, hf, fun r hr => a.field_of_words (words_append.mp hwords).1 hr, hc', hend⟩

/-! ## Transparency -/

/-- A handler that leaves the register structure as it is. -/
def Quiet (h : Handler a) : Prop :=
  ∀ isr registers mem mem', h isr registers mem mem' →
    ∀ r ∈ a.fields, a.field mem' registers r = a.field mem registers r

/-- The context `c'` goes on where `c` was interrupted. -/
structure Transparent (c c' : Context a) : Prop where
  named : ∀ r ∈ a.named, c'.machine.reg r = c.machine.reg r
  flags : c'.flags = c.flags
  ip : c'.ip = c.ip
  sp : c'.machine.reg .sp = c.machine.reg .sp

variable {t : Idt.Tables (Handler a)}

theorem quiet_HandleISR (hquiet : ∀ h, t.handlers n = some h → Quiet h) {registers : a.Word}
    {mem mem' : a.Mem} (h : a.HandleISR t n registers mem mem') :
    ∀ r ∈ a.fields, a.field mem' registers r = a.field mem registers r := by
  cases hn : t.handlers n with
  | none =>
    rw [HandleISR_none hn] at h
    intro r _
    rw [h]
  | some handler =>
    rw [HandleISR_some hn] at h
    exact hquiet handler hn n registers mem mem' h

theorem flags_of_error (hquiet : ∀ h, t.handlers n = some h → Quiet h) {e : a.Word}
    (h : a.Resumes n (a.frame c (some e)).length (a.HandleISR t) c (some e) c') :
    c'.flags = c.cs := by
  obtain ⟨mem, mem', m, hf, _, rfl, hend⟩ := resumes_nil h
  obtain ⟨_, hframe, _⟩ := hend (quiet_HandleISR hquiet hf .sp (by cases a <;> decide))
  exact iret_of_error hframe

/-- Without an error code the interrupted code goes on with everything it had. -/
theorem transparent_of_none (hquiet : ∀ h, t.handlers n = some h → Quiet h)
    (h : a.Resumes n (a.frame c none).length (a.HandleISR t) c none c') : Transparent c c' := by
  obtain ⟨mem, mem', m, hf, hgiven, rfl, hend⟩ := resumes_nil h
  have hsame := quiet_HandleISR hquiet hf
  obtain ⟨hsp, hframe, hregs⟩ := hend (hsame .sp (by cases a <;> decide))
  obtain ⟨hip, hflags, hsp'⟩ := iret_of_frame hsp hframe
  refine ⟨?_, hflags, hip, hsp'⟩
  intro r hr
  obtain ⟨hne, _, hswap, hinv⟩ := swap_named hr
  have hfields := (swap_named hswap).2.1
  rw [iret_reg m c.ss hne, hregs r hr, hsame _ hfields, hgiven _ hfields, hinv, given_named hr]

/-- An interrupt is transparent exactly when there is no error code. -/
theorem transparent_iff (a : Arch) (n : UInt8) (t : Idt.Tables (Handler a))
    (hquiet : ∀ h, t.handlers n = some h → Quiet h) (c : Interrupted a) (err : Option a.Word)
    (c' : Context a)
    (h : a.Resumes n (a.frame c.toContext err).length (a.HandleISR t) c.toContext err c') :
    Transparent c.toContext c' ↔ err = none := by
  cases err with
  | none => exact ⟨fun _ => rfl, fun _ => transparent_of_none hquiet h⟩
  | some e =>
    constructor
    · intro htrans
      have hbit := c.cs_ring0
      rw [← flags_of_error hquiet h, htrans.flags, c.flags_one] at hbit
      exact absurd hbit (by decide)
    · intro herr
      exact absurd herr (Option.some_ne_none e)

/-- A kernel that polls for work with interrupts enabled. -/
def polling (a : Arch) : Interrupted a where
  machine := ⟨fun _ => 0x100000, fun _ => 0⟩
  ip := 0x10000
  cs := 0x08
  flags := 0x202
  ss := 0x10
  flags_one := by cases a <;> decide
  cs_ring0 := by cases a <;> decide

/-- The table after `Init`. -/
def noHandlers (a : Arch) : Idt.Tables (Handler a) :=
  Idt.Init ⟨fun _ => ⟨none, 0, 0⟩, fun _ => none⟩

theorem noHandlers_handlers (a : Arch) (n : UInt8) : (noHandlers a).handlers n = none :=
  Idt.Init_handlers _ n

theorem noHandlers_quiet (a : Arch) (n : UInt8) :
    ∀ h, (noHandlers a).handlers n = some h → Quiet h := by
  intro h hn
  rw [noHandlers_handlers] at hn
  cases hn

theorem noHandlers_resumes (a : Arch) (n : UInt8) (keep : Nat) (c : Context a)
    (err : Option a.Word) : ∃ c', a.Resumes n keep (a.HandleISR (noHandlers a)) c err c' := by
  apply resumes_self
  intro m
  rw [HandleISR_none (noHandlers_handlers a _)]

theorem transparent_iff_polling :
    ∃ c', Transparent (polling .x86_64).toContext c' ↔ (none : Option (BitVec 64)) = none := by
  obtain ⟨c', h⟩ := noHandlers_resumes .x86_64 0x20 _ (polling .x86_64).toContext none
  exact ⟨c', transparent_iff .x86_64 0x20 (noHandlers .x86_64) (noHandlers_quiet _ _)
    (polling .x86_64) none c' h⟩

/-- A page fault, at the vector 14, resumes with the code segment in the flags. -/
theorem page_fault_opaque :
    ∃ c', x86_64.Resumes 0x0E (x86_64.frame (polling .x86_64).toContext (some 0x2)).length
        (x86_64.HandleISR (noHandlers .x86_64)) (polling .x86_64).toContext (some 0x2) c' ∧
      ¬ Transparent (polling .x86_64).toContext c' := by
  obtain ⟨c', h⟩ := noHandlers_resumes .x86_64 0x0E
    (x86_64.frame (polling .x86_64).toContext (some 0x2)).length
    (polling .x86_64).toContext (some 0x2)
  refine ⟨c', h, ?_⟩
  intro htrans
  have hflags := flags_of_error (noHandlers_quiet .x86_64 0x0E) h
  rw [htrans.flags] at hflags
  exact absurd hflags (by decide)

/-! ## The register structure -/

/-- Every member of the structure that the handler is given is the register of
its name. -/
def Sees (n : UInt8) (c : Context a) : Prop :=
  let m := exec .sp a.slot (stubEntry n a) (a.enter c none)
  ∀ r ∈ a.named, a.field m.mem (a.arguments m).2 r = c.machine.reg r

/-- A handler that sets the members of the structure. -/
def Assigns (v : Reg → a.Word) (h : Handler a) : Prop :=
  ∀ isr registers mem mem', h isr registers mem mem' →
    (∀ r ∈ a.named, a.field mem' registers r = v r) ∧
      a.field mem' registers .sp = a.field mem registers .sp

theorem sees_iff : Sees n c ↔ ∀ r ∈ a.named, c.machine.reg (a.swap r) = c.machine.reg r := by
  have hfit : (24 + ([] : List a.Word).length) * a.slot < 2 ^ a.width := by
    cases a <;> decide
  obtain ⟨hargs, _, hwords⟩ := a.call_spec n c none (words_nil _) hfit
  rw [Sees, hargs]
  apply forall_congr'
  intro r
  apply imp_congr_right
  intro hr
  obtain ⟨_, hfield, hswap, _⟩ := swap_named hr
  rw [a.field_of_words (words_append.mp hwords).1 hfield, given_named hswap]

/-- What the handler wrote arrives under the name of the stub's pops. -/
theorem sets_spec {h : Handler a} {v : Reg → a.Word} (ht : t.handlers n = some h)
    (hv : Assigns v h)
    (hres : a.Resumes n (a.frame c none).length (a.HandleISR t) c none c') :
    ∀ r ∈ a.named, c'.machine.reg r = v (a.swap r) := by
  obtain ⟨mem, mem', m, hf, _, rfl, hend⟩ := resumes_nil hres
  rw [HandleISR_some ht] at hf
  obtain ⟨hset, hsp⟩ := hv _ _ _ _ hf
  obtain ⟨_, _, hregs⟩ := hend hsp
  intro r hr
  obtain ⟨hne, _, hswap, _⟩ := swap_named hr
  rw [iret_reg m c.ss hne, hregs r hr, hset _ hswap]

/-- Two registers are exchanged on i386. -/
theorem forall_swap_iff (f : Reg → a.Word) :
    (∀ r ∈ a.named, f (a.swap r) = f r) ↔ a = .x86_64 ∨ f .si = f .di := by
  cases a with
  | i386 =>
    constructor
    · intro h
      exact Or.inr (h .di (by decide))
    · rintro (h | h) r hr
      · cases h
      · cases r with
        | si => exact h.symm
        | di => exact h
        | _ => rfl
  | x86_64 =>
    constructor
    · intro _
      exact Or.inl rfl
    · intro _ r _
      rfl

/-- The handler sees and sets the registers by their names exactly on x86-64, and
on i386 when the two index registers agree. -/
theorem sees_and_sets_iff (a : Arch) (n : UInt8) (t : Idt.Tables (Handler a)) (h : Handler a)
    (ht : t.handlers n = some h) (v : Reg → a.Word) (hv : Assigns v h) (c c' : Context a)
    (hres : a.Resumes n (a.frame c none).length (a.HandleISR t) c none c') :
    (Sees n c ∧ ∀ r ∈ a.named, c'.machine.reg r = v r) ↔
      a = .x86_64 ∨ (c.machine.reg .si = c.machine.reg .di ∧ v .si = v .di) := by
  have hsets := sets_spec ht hv hres
  have hiff : (∀ r ∈ a.named, c'.machine.reg r = v r) ↔ ∀ r ∈ a.named, v (a.swap r) = v r := by
    apply forall_congr'
    intro r
    apply imp_congr_right
    intro hr
    rw [hsets r hr]
  rw [hiff, sees_iff, forall_swap_iff, forall_swap_iff, ← or_and_left]

/-- The handler that sets every member. -/
def setFields (v : Reg → a.Word) : Handler a := fun _ registers mem mem' =>
  (∀ r ∈ a.named, a.field mem' registers r = v r) ∧
    a.field mem' registers .sp = a.field mem registers .sp

theorem assigns_setFields (v : Reg → a.Word) : Assigns v (setFields v) :=
  fun _ _ _ _ h => h

/-- A table with one handler. -/
def oneHandler (n : UInt8) (h : Handler a) : Idt.Tables (Handler a) :=
  Idt.SetISREntry n 0x08 0x0E 0 true (some h) (noHandlers a)

theorem oneHandler_handlers (n : UInt8) (h : Handler a) :
    (oneHandler n h).handlers n = some h := by
  rw [oneHandler, Idt.SetISREntry_handlers, Function.update_self]

/-- A handler that writes what is there may return at once. -/
theorem setFields_resumes (n : UInt8) (c : Context a) {v : Reg → a.Word}
    (hv : ∀ r ∈ a.named, c.machine.reg (a.swap r) = v r) :
    ∃ c', a.Resumes n (a.frame c none).length (a.HandleISR (oneHandler n (setFields v))) c none
      c' := by
  have hfit : (24 + ([] : List a.Word).length) * a.slot < 2 ^ a.width := by
    cases a <;> decide
  obtain ⟨hargs, _, hwords⟩ := a.call_spec n c none (words_nil _) hfit
  apply resumes_self
  dsimp only
  rw [hargs, HandleISR_some (oneHandler_handlers n _)]
  refine ⟨?_, rfl⟩
  intro r hr
  obtain ⟨_, hfield, hswap, _⟩ := swap_named hr
  rw [a.field_of_words (words_append.mp hwords).1 hfield, given_named hswap, hv r hr]

theorem sees_and_sets_iff_polling :
    ∃ c' : Context x86_64, (Sees 0x20 (polling .x86_64).toContext ∧
        ∀ r ∈ x86_64.named, c'.machine.reg r = 0x100000) ↔
      x86_64 = .x86_64 ∨
        ((polling .x86_64).machine.reg .si = (polling .x86_64).machine.reg .di ∧
          (0x100000 : BitVec 64) = 0x100000) := by
  obtain ⟨c', hres⟩ := setFields_resumes 0x20 (polling .x86_64).toContext
    (v := fun _ => 0x100000) (fun _ _ => rfl)
  exact ⟨c', sees_and_sets_iff .x86_64 0x20 _ _ (oneHandler_handlers 0x20 _)
    (fun _ => 0x100000) (assigns_setFields _) _ c' hres⟩

/-- A kernel that copies a block from `0x1000` to `0x2000`. -/
def copying : Context i386 :=
  { (polling i386).toContext with
    machine := ⟨fun r => if r = .si then 0x1000 else if r = .di then 0x2000 else 0x100000,
      fun _ => 0⟩ }

/-- A handler sees its index registers exchanged, and what it writes for one of
them arrives in the other. -/
theorem copying_exchanged :
    ¬ Sees 0x20 copying ∧
      ∃ c', i386.Resumes 0x20 (i386.frame copying none).length
          (i386.HandleISR
            (oneHandler 0x20 (setFields fun r => copying.machine.reg (i386.swap r))))
          copying none c' ∧
        c'.machine.reg .si ≠ copying.machine.reg (i386.swap .si) := by
  constructor
  · intro h
    have hsi := sees_iff.mp h .si (by decide)
    exact absurd hsi (by decide)
  · obtain ⟨c', hres⟩ := setFields_resumes 0x20 copying (fun _ _ => rfl)
    refine ⟨c', hres, ?_⟩
    rw [sets_spec (oneHandler_handlers 0x20 _) (assigns_setFields _) hres .si (by decide)]
    decide

end Arch

end Xeos.Hal.Stub
