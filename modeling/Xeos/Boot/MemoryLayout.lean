import Xeos.Boot.Proc
import Xeos.Lib.Loop

/-!
# Detecting the memory

`XEOS.16.mem.getMemoryLayout` asks the BIOS for the memory map, one entry a
call.  The BIOS is a function from its own state and the processor to the same;
`Answers` is what the interface promises of it: a value in `EBX` names the entry
that the next call gives, zero names the first one, and the list ends either with
a zero in `EBX` beside the last entry or with the carry flag on the call after
it.

The routine counts an entry when it asks for the next one.  It looks at `EBX`
after that next call, so a zero in `EBX` ends the loop before the entry that came
with it is counted.  `getMemoryLayout_complete_iff` says when the count is right
all the same: the list ends with the carry flag, or has one entry.
-/

namespace Xeos.Boot

open Lib Lib.Real

/-! ## The routine -/

/-- "SMAP". -/
def smap : Nat := 0x534D4150

def carry (c : Cpu) : Bool := c.flags.getLsbD 0

section Routine

variable {B : Type} (int15 : B → Cpu → B × Cpu)
variable (infosBytes : Nat)

/-- The state in front of the first call. -/
def firstRequest (c : Cpu) : Cpu :=
  let c := procStart 0 c
  let c := c.setSeg .es (c.word .ax)
  let c := c.setReg .ax 0
  let c := c.setReg .di (c.reg .ax).toNat
  let c := c.setReg .ax 0x0000E820
  let c := c.setReg .cx 0x00000014
  let c := c.setReg .dx 0x534D4150
  c.setReg .bx 0

/-- The state in front of a call of the loop. -/
def nextRequest (c : Cpu) : Cpu :=
  let c := c.setReg .ax ((c.reg .ax).toNat + 0x14)
  let c := c.setWord .di (c.word .di + 0x14)
  let c := c.push (.reg .ax)
  let c := c.setReg .ax 0x0000E820
  c.setReg .cx 0x00000018

/-- The answer to a call of the loop, with `EAX` back. -/
def nextAnswer (s : B × Cpu) : B × Cpu :=
  let (b, c) := int15 s.1 (nextRequest s.2)
  (b, c.pop (.reg .ax))

/-- `.loop`. -/
def layoutLoop (s : B × Cpu) : (B × Cpu) ⊕ (B × Cpu) :=
  let s := nextAnswer int15 s
  if carry s.2 then .inr s
  else if (s.2.reg .bx).toNat = 0 then .inr s
  else .inl s

/-- `.done`. -/
def layoutDone (c : Cpu) : Cpu :=
  let c := c.store 4 .ds infosBytes (c.reg .ax).toNat
  let c := procEnd c
  c.setReg .ax (c.load 4 .ds infosBytes)

/-- `.error`. -/
def layoutError (c : Cpu) : Cpu := (procEnd c).setReg .ax 0

/-- `XEOS.16.mem.getMemoryLayout`, with a bound on the rounds of the loop.  The
variable `$XEOS.16.mem.infos.bytes` is at `infosBytes`. -/
def getMemoryLayout (fuel : Nat) (s : B × Cpu) : Option (B × Cpu) :=
  let (b, c) := int15 s.1 (firstRequest s.2)
  if carry c then some (b, layoutError c)
  else if (c.reg .ax).toNat ≠ smap then some (b, layoutError c)
  else (runFor (layoutLoop int15) fuel (b, c.setReg .ax 0)).map
    fun t => (t.1, layoutDone infosBytes t.2)

end Routine

/-! ## The BIOS -/

abbrev Entry := Fin 20 → UInt8

/-- A call for the memory map. -/
structure Request (c : Cpu) : Prop where
  ax : (c.reg .ax).toNat = 0xE820
  dx : (c.reg .dx).toNat = smap
  cx : 20 ≤ (c.reg .cx).toNat

/-- Where the BIOS writes an entry. -/
def buffer (c : Cpu) : Nat := c.linear .es (c.word .di)

/-- What a call keeps.  The BIOS has memory of its own and uses the stack down
to `depth` bytes below the stack pointer. -/
structure Reply (own : Set Nat) (depth : Nat) (c c' : Cpu) : Prop where
  seg : c'.seg = c.seg
  sp : c'.reg .sp = c.reg .sp
  bp : c'.reg .bp = c.reg .bp
  di : c'.reg .di = c.reg .di
  mem : ∀ a, a ∉ own → a + depth < c.top ∨ c.top ≤ a → a < buffer c ∨ buffer c + 20 ≤ a →
    c'.mem a = c.mem a

/-- A BIOS that answers with the entries of the list.  In the state `b`, the
value `v` of `EBX` asks for the entry number `i` when `At b i v`.  With `byCarry`
the list ends with the carry flag, otherwise with a zero in `EBX`. -/
structure Answers {B : Type} (int15 : B → Cpu → B × Cpu) (entries : List Entry) (byCarry : Bool)
    (own : Set Nat) (depth : Nat) (At : B → Nat → Nat → Prop) : Prop where
  start : ∀ b, At b 0 0
  reply : ∀ b c i, Request c → At b i (c.reg .bx).toNat → Reply own depth c (int15 b c).2
  entry : ∀ b c i (hi : i < entries.length), Request c → At b i (c.reg .bx).toNat →
    carry (int15 b c).2 = false ∧ ((int15 b c).2.reg .ax).toNat = smap ∧
      ((int15 b c).2.reg .dx).toNat = smap ∧
      ∀ j : Fin 20, (int15 b c).2.mem (buffer c + j) = entries[i] j
  more : ∀ b c i, i < entries.length → Request c → At b i (c.reg .bx).toNat →
    i + 1 < entries.length ∨ byCarry = true →
    ((int15 b c).2.reg .bx).toNat ≠ 0 ∧
      At (int15 b c).1 (i + 1) ((int15 b c).2.reg .bx).toNat
  last : ∀ b c i, i + 1 = entries.length → byCarry = false → Request c →
    At b i (c.reg .bx).toNat → ((int15 b c).2.reg .bx).toNat = 0
  past : ∀ b c, byCarry = true → Request c →
    At b entries.length (c.reg .bx).toNat → carry (int15 b c).2 = true

/-- Where the map is put, by the segment in `AX`. -/
def layoutBase (c : Cpu) : Nat := 16 * c.word .ax

/-- The entries below the number `k` are in memory from `base` on. -/
def Holds (entries : List Entry) (m : Memory) (base k : Nat) : Prop :=
  ∀ i (hi : i < entries.length), i < k → ∀ j : Fin 20, m (base + 20 * i + j) = entries[i] j

/-- What the caller sees to: room on the stack, and the stack, the buffer (with
room for one more entry), the variable and the memory of the BIOS apart. -/
structure Ready (infosBytes : Nat) (own : Set Nat) (depth n : Nat) (c : Cpu) : Prop where
  room : procBytes + 4 + depth ≤ c.word .sp
  stack_buffer : c.top ≤ layoutBase c ∨
    layoutBase c + 20 * (n + 1) + (procBytes + 4 + depth) ≤ c.top
  stack_infos : c.top ≤ c.linear .ds infosBytes ∨
    c.linear .ds infosBytes + 4 + procBytes ≤ c.top
  infos_buffer : c.linear .ds infosBytes + 4 ≤ layoutBase c ∨
    layoutBase c + 20 * (n + 1) ≤ c.linear .ds infosBytes
  own_stack : ∀ a ∈ own, a + (procBytes + 4) < c.top ∨ c.top ≤ a
  own_buffer : ∀ a ∈ own, a < layoutBase c ∨ layoutBase c + 20 * (n + 1) ≤ a

/-! ## Between the start and the end -/

/-- A state of the body, for the entry state `c₀`, with the words `fs` on the
stack below the frame. -/
structure Body (c₀ c : Cpu) (fs : List (Nat × Nat)) : Prop extends InProc 0 c₀ c fs where
  es : (c.seg .es).toNat = c₀.word .ax
  ds : c.seg .ds = c₀.seg .ds

section Routine

variable {B : Type} {int15 : B → Cpu → B × Cpu} {entries : List Entry} {byCarry : Bool}
variable {own : Set Nat} {depth infosBytes : Nat} {At : B → Nat → Nat → Prop}
variable {c₀ c c' : Cpu} {fs : List (Nat × Nat)}

/-- Code of the body that changes neither the frame nor the segments. -/
theorem Body.keep (h : Body c₀ c fs) (hseg : c'.seg = c.seg) (hsp : c'.reg .sp = c.reg .sp)
    (hbp : c'.reg .bp = c.reg .bp) (hmem : ∀ a, c.top ≤ a → a < c₀.top → c'.mem a = c.mem a) :
    Body c₀ c' fs where
  toInProc := h.toInProc.keep (by rw [hseg]) hsp hbp hmem
  es := by rw [hseg]; exact h.es
  ds := by rw [hseg]; exact h.ds

/-- A call to the BIOS keeps the body. -/
theorem Body.reply (h : Body c₀ c fs) (hready : Ready infosBytes own depth entries.length c₀)
    (hfs : bytes fs ≤ 4) (hbuffer : layoutBase c₀ ≤ buffer c)
    (hlast : buffer c + 20 ≤ layoutBase c₀ + 20 * (entries.length + 1))
    (hreply : Reply own depth c c') : Body c₀ c' fs := by
  have htop := h.top
  apply h.keep hreply.seg hreply.sp hreply.bp
  intro a hle hlt
  apply hreply.mem a
  · intro hown
    have hapart := hready.own_stack a hown
    omega
  · exact Or.inr hle
  · have hapart := hready.stack_buffer
    omega

/-! ## One call -/

/-- What holds at the head of the loop: `i + 1` entries have been delivered. -/
structure LayoutInv (int15 : B → Cpu → B × Cpu) (entries : List Entry) (byCarry : Bool)
    (At : B → Nat → Nat → Prop) (c₀ : Cpu) (i : Nat) (s : B × Cpu) : Prop where
  body : Body c₀ s.2 []
  ax : (s.2.reg .ax).toNat = 20 * i
  di : s.2.word .di = 20 * i
  dx : (s.2.reg .dx).toNat = smap
  delivered : i < entries.length
  more : i + 1 < entries.length ∨ byCarry = true → At s.1 (i + 1) (s.2.reg .bx).toNat
  last : i + 1 = entries.length → byCarry = false → (s.2.reg .bx).toNat = 0
  unfinished : byCarry = false → i + 1 < entries.length ∨ entries.length = 1
  holds : Holds entries s.2.mem (layoutBase c₀) (i + 1)

theorem firstRequest_body (hready : Ready infosBytes own depth entries.length c₀) :
    Body c₀ (firstRequest c₀) [] := by
  have hroom := hready.room
  have hax : (procStart 0 c₀).word .ax = c₀.word .ax := by
    rw [Cpu.word, reg_procStart (by decide) (by decide), Cpu.word]
  have hlt := c₀.word_lt .ax
  refine ⟨?_, ?_, ?_⟩
  · exact (InProc.start (by omega)).keep (by simp [firstRequest]) (by simp [firstRequest])
      (by simp [firstRequest]) (fun a _ _ => by simp [firstRequest])
  · simp only [firstRequest, Cpu.seg_setReg, Cpu.seg_setSeg, hax]
    omega
  · have hne : Seg.ds ≠ Seg.es := by simp
    simp only [firstRequest, Cpu.seg_setReg, Cpu.seg_setSeg_of_ne _ _ _ _ hne, seg_procStart]

theorem firstRequest_request : Request (firstRequest c₀) where
  ax := by simp [firstRequest]
  dx := by simp [firstRequest, smap]
  cx := by simp [firstRequest]

theorem buffer_firstRequest (hbody : Body c₀ (firstRequest c₀) []) :
    buffer (firstRequest c₀) = layoutBase c₀ := by
  have hdi : (firstRequest c₀).word .di = 0 := by simp [firstRequest]
  rw [buffer, Cpu.linear, hbody.es, hdi]
  rfl

/-- After the first call. -/
theorem first_inv (hans : Answers int15 entries byCarry own depth At)
    (hready : Ready infosBytes own depth entries.length c₀) (hn : 1 ≤ entries.length) (b : B) :
    carry (int15 b (firstRequest c₀)).2 = false ∧
      ((int15 b (firstRequest c₀)).2.reg .ax).toNat = smap ∧
      LayoutInv int15 entries byCarry At c₀ 0
        ((int15 b (firstRequest c₀)).1, (int15 b (firstRequest c₀)).2.setReg .ax 0) := by
  have hbody := firstRequest_body hready
  have hbuffer := buffer_firstRequest hbody
  have hreq : Request (firstRequest c₀) := firstRequest_request
  have hat : At b 0 ((firstRequest c₀).reg .bx).toNat := by
    have hbx : ((firstRequest c₀).reg .bx).toNat = 0 := by simp [firstRequest]
    rw [hbx]
    exact hans.start b
  have hreply := hans.reply b _ 0 hreq hat
  obtain ⟨hcarry, hax, hdx, hbytes⟩ := hans.entry b _ 0 hn hreq hat
  have hcalled := hbody.reply hready (by simp) (by omega) (by omega) hreply
  have hne : Reg.bx ≠ Reg.ax := nofun
  refine ⟨hcarry, hax, ?_⟩
  constructor
  · exact hcalled.keep (by simp) (by simp) (by simp) (by simp)
  · simp
  · have hdi : (firstRequest c₀).word .di = 0 := by simp [firstRequest]
    rw [Cpu.word_setReg_of_ne _ _ _ _ (by decide), Cpu.word, hreply.di, ← Cpu.word, hdi]
  · rw [Cpu.reg_setReg_of_ne _ _ _ _ (by decide)]
    exact hdx
  · exact hn
  · intro hmore
    rw [Cpu.reg_setReg_of_ne _ _ _ _ hne]
    exact (hans.more b _ 0 hn hreq hat hmore).2
  · intro hlast hby
    rw [Cpu.reg_setReg_of_ne _ _ _ _ hne]
    exact hans.last b _ 0 hlast hby hreq hat
  · intro _
    omega
  · intro i hi hlt j
    have hzero : i = 0 := by omega
    subst hzero
    rw [Cpu.mem_setReg, ← hbuffer]
    exact hbytes j

/-- The count that the loop saves over a call. -/
def counted (c : Cpu) : Cpu := (c.setReg .ax ((c.reg .ax).toNat + 0x14)).setWord .di (c.word .di + 0x14)

theorem nextRequest_eq : nextRequest c
    = (((counted c).push (.reg .ax)).setReg .ax 0x0000E820).setReg .cx 0x00000018 := rfl

section Next

variable {i : Nat} {s : B × Cpu}

theorem counted_body (h : Body c₀ c []) : Body c₀ (counted c) [] :=
  h.keep (by simp [counted]) (by simp [counted]) (by simp [counted]) (by simp [counted])

/-- The body has room for the count and for the BIOS. -/
theorem Body.push_room (h : Body c₀ c [])
    (hready : Ready infosBytes own depth entries.length c₀) :
    (Slot.reg .ax).size ≤ c.word .sp := by
  have hroom := hready.room
  have hsp := h.word_sp
  have hsize : (Slot.reg .ax).size = 4 := rfl
  rw [bytes_nil] at hsp
  omega

/-- The state in front of a call has the count on the stack. -/
theorem nextRequest_body (hready : Ready infosBytes own depth entries.length c₀)
    (h : Body c₀ c []) : Body c₀ (nextRequest c) [Slot.saved (counted c) (.reg .ax)] := by
  have hcounted := counted_body h
  have hpush := hcounted.push (hcounted.push_room hready) (w := counted c) (t := .reg .ax) rfl
  rw [nextRequest_eq]
  exact ⟨hpush.keep (by simp) (by simp) (by simp) (fun a _ _ => by simp), hcounted.es,
    hcounted.ds⟩

theorem nextRequest_request (hdx : (c.reg .dx).toNat = smap) : Request (nextRequest c) where
  ax := by simp [nextRequest]
  dx := by
    have hne : Reg.dx ≠ Reg.sp := nofun
    rw [nextRequest_eq, Cpu.reg_setReg_of_ne _ _ _ _ (by decide),
      Cpu.reg_setReg_of_ne _ _ _ _ (by decide), Cpu.push, Cpu.reg_pushWith_of_ne _ _ _ _ hne]
    simpa [counted] using hdx
  cx := by simp [nextRequest]

theorem bx_nextRequest : (nextRequest c).reg .bx = c.reg .bx := by
  have hne : Reg.bx ≠ Reg.sp := nofun
  rw [nextRequest_eq, Cpu.reg_setReg_of_ne _ _ _ _ (by decide),
    Cpu.reg_setReg_of_ne _ _ _ _ (by decide), Cpu.push, Cpu.reg_pushWith_of_ne _ _ _ _ hne]
  simp [counted]

theorem di_nextRequest : (nextRequest c).word .di = (c.word .di + 0x14) % 2 ^ 16 := by
  have hne : Reg.di ≠ Reg.sp := nofun
  rw [nextRequest_eq, Cpu.word_setReg_of_ne _ _ _ _ (by decide),
    Cpu.word_setReg_of_ne _ _ _ _ (by decide), Cpu.push, Cpu.word_pushWith_of_ne _ _ _ _ hne,
    counted, Cpu.word_setWord]

theorem buffer_nextRequest (hready : Ready infosBytes own depth entries.length c₀)
    (h : Body c₀ c []) (hdi : c.word .di = 20 * i) (hi : i < entries.length)
    (hn : entries.length ≤ 3000) :
    buffer (nextRequest c) = layoutBase c₀ + 20 * (i + 1) := by
  rw [buffer, Cpu.linear, (nextRequest_body hready h).es, di_nextRequest, hdi, layoutBase]
  omega

/-- A call for the next entry keeps the entries that are there. -/
theorem nextRequest_holds (hready : Ready infosBytes own depth entries.length c₀)
    (h : LayoutInv int15 entries byCarry At c₀ i s) (hn : entries.length ≤ 3000)
    (hreply : Reply own depth (nextRequest s.2) c') :
    Holds entries c'.mem (layoutBase c₀) (i + 1) := by
  have hbuffer := buffer_nextRequest hready h.body h.di h.delivered hn
  have hcounted := counted_body h.body
  have htop := (nextRequest_body hready h.body).top
  have htop' := hcounted.top
  have hsize : (Slot.reg .ax).size = 4 := rfl
  have hsaved : (Slot.saved (counted s.2) (.reg .ax)).1 = 4 := rfl
  rw [bytes_cons, bytes_nil, hsaved] at htop
  rw [bytes_nil] at htop'
  intro k hk hlt j
  have hj := j.isLt
  have hapart := hready.stack_buffer
  have hdel := h.delivered
  have hown : layoutBase c₀ + 20 * k + j ∉ own := by
    intro hmem
    have := hready.own_buffer _ hmem
    omega
  rw [hreply.mem _ hown (by omega) (by omega), ← h.holds k hk hlt j, nextRequest_eq,
    Cpu.mem_setReg, Cpu.mem_setReg]
  exact hcounted.stack.mem_push (hcounted.toInProc.push_room (hcounted.push_room hready))
    (by rw [hsize]; omega)

/-- The registers and the memory after a call of the loop. -/
theorem nextAnswer_spec (hready : Ready infosBytes own depth entries.length c₀)
    (h : LayoutInv int15 entries byCarry At c₀ i s) (hn : entries.length ≤ 3000)
    (hreply : Reply own depth (nextRequest s.2) c') :
    c'.pop (.reg .ax) = (c'.drop 4).setReg .ax (20 * (i + 1)) ∧
      Body c₀ (c'.pop (.reg .ax)) [] ∧ (c'.pop (.reg .ax)).word .di = 20 * (i + 1) := by
  have hdel := h.delivered
  have hbuffer := buffer_nextRequest hready h.body h.di h.delivered hn
  have hbody : Body c₀ c' [Slot.saved (counted s.2) (.reg .ax)] :=
    (nextRequest_body hready h.body).reply hready (by change 4 + 0 ≤ 4; omega) (by omega) (by omega)
      hreply
  have hcount : (Slot.reg .ax).value (counted s.2) = 20 * (i + 1) := by
    have hne : Reg.ax ≠ Reg.di := by simp
    have hax := h.ax
    rw [Slot.value, counted, Cpu.reg_setWord_of_ne _ _ _ _ hne, Cpu.reg_setReg, hax]
    omega
  have hpop : c'.pop (.reg .ax) = (c'.drop 4).setReg .ax (20 * (i + 1)) := by
    rw [hbody.stack.pop, hcount]
    rfl
  refine ⟨hpop, ?_, ?_⟩
  · have hproc := hbody.toInProc.popped (by decide)
    refine ⟨hproc, ?_, ?_⟩
    · rw [hpop]
      exact hbody.es
    · rw [hpop]
      exact hbody.ds
  · have hnesp : Reg.di ≠ Reg.sp := by simp
    rw [hpop, Cpu.word_setReg_of_ne _ _ _ _ (by decide), Cpu.word_drop_of_ne _ _ _ hnesp,
      Cpu.word, hreply.di, ← Cpu.word, di_nextRequest, h.di]
    omega

/-- The entries that the routine counts. -/
def countedEntries (n : Nat) (byCarry : Bool) : Nat :=
  if byCarry = true ∨ n = 1 then n else n - 1

/-- What holds at `.done`. -/
structure LayoutEnd (entries : List Entry) (byCarry : Bool) (c₀ c : Cpu) : Prop where
  body : Body c₀ c []
  ax : (c.reg .ax).toNat = 20 * countedEntries entries.length byCarry
  holds : Holds entries c.mem (layoutBase c₀) entries.length

/-- A round whose call sets the carry flag or gives a zero in `EBX`. -/
theorem layoutLoop_done
    (h : carry (int15 s.1 (nextRequest s.2)).2 = true ∨
      ((int15 s.1 (nextRequest s.2)).2.reg .bx).toNat = 0) :
    layoutLoop int15 s = .inr (nextAnswer int15 s) := by
  have hcarry : carry (nextAnswer int15 s).2 = carry (int15 s.1 (nextRequest s.2)).2 := rfl
  have hbx : (nextAnswer int15 s).2.reg .bx = (int15 s.1 (nextRequest s.2)).2.reg .bx := by
    have hne : Reg.bx ≠ Reg.ax := nofun
    exact (Cpu.reg_setReg_of_ne _ _ _ _ hne).trans (Cpu.reg_drop_of_ne _ _ _ (by decide))
  rw [← hcarry, ← hbx] at h
  rw [layoutLoop]
  by_cases hc : carry (nextAnswer int15 s).2 = true
  · rw [if_pos hc]
  · rw [if_neg hc, if_pos (h.resolve_left hc)]

theorem layoutLoop_next (hcarry : carry (int15 s.1 (nextRequest s.2)).2 = false)
    (hbx : ((int15 s.1 (nextRequest s.2)).2.reg .bx).toNat ≠ 0) :
    layoutLoop int15 s = .inl (nextAnswer int15 s) := by
  have hcarry' : ¬ carry (nextAnswer int15 s).2 = true := by
    rw [show carry (nextAnswer int15 s).2 = carry (int15 s.1 (nextRequest s.2)).2 from rfl, hcarry]
    exact Bool.false_ne_true
  have hbx' : (nextAnswer int15 s).2.reg .bx = (int15 s.1 (nextRequest s.2)).2.reg .bx := by
    have hne : Reg.bx ≠ Reg.ax := nofun
    exact (Cpu.reg_setReg_of_ne _ _ _ _ hne).trans (Cpu.reg_drop_of_ne _ _ _ (by decide))
  rw [layoutLoop, if_neg hcarry', if_neg (by rw [hbx']; exact hbx)]

/-- A call that delivers the entry number `i + 1`. -/
theorem nextAnswer_holds (hready : Ready infosBytes own depth entries.length c₀)
    (h : LayoutInv int15 entries byCarry At c₀ i s) (hn : entries.length ≤ 3000)
    (hreply : Reply own depth (nextRequest s.2) c') (hlt : i + 1 < entries.length)
    (hbytes : ∀ j : Fin 20, c'.mem (buffer (nextRequest s.2) + j) = entries[i + 1] j) :
    Holds entries c'.mem (layoutBase c₀) (i + 2) := by
  intro k hk hle j
  rcases Nat.lt_or_ge k (i + 1) with hold | hnew
  · exact nextRequest_holds hready h hn hreply k hk hold j
  · have hki : k = i + 1 := by omega
    subst hki
    rw [← buffer_nextRequest hready h.body h.di h.delivered hn]
    exact hbytes j

/-- One round of the loop. -/
theorem layoutLoop_step (hans : Answers int15 entries byCarry own depth At)
    (hready : Ready infosBytes own depth entries.length c₀) (hn : entries.length ≤ 3000)
    (h : LayoutInv int15 entries byCarry At c₀ i s) :
    (∃ t, layoutLoop int15 s = .inr t ∧ LayoutEnd entries byCarry c₀ t.2) ∨
      (∃ t, layoutLoop int15 s = .inl t ∧ LayoutInv int15 entries byCarry At c₀ (i + 1) t) := by
  have hdel := h.delivered
  have hreq := nextRequest_request h.dx
  have hbx : (nextRequest s.2).reg .bx = s.2.reg .bx := bx_nextRequest
  have hne : Reg.ax ≠ Reg.sp := nofun
  -- the state after a call that ends the loop
  have hend : ∀ k, At s.1 k ((nextRequest s.2).reg .bx).toNat →
      countedEntries entries.length byCarry = i + 1 →
      (carry (int15 s.1 (nextRequest s.2)).2 = true ∨
        ((int15 s.1 (nextRequest s.2)).2.reg .bx).toNat = 0) →
      Holds entries (int15 s.1 (nextRequest s.2)).2.mem (layoutBase c₀) entries.length →
      ∃ t, layoutLoop int15 s = .inr t ∧ LayoutEnd entries byCarry c₀ t.2 := by
    intro k hat hcount hstop hholds
    obtain ⟨hpop, hbody, -⟩ := nextAnswer_spec hready h hn (hans.reply _ _ k hreq hat)
    refine ⟨_, layoutLoop_done hstop, ?_, ?_, ?_⟩
    · exact hbody
    · change (((int15 s.1 (nextRequest s.2)).2.pop (.reg .ax)).reg .ax).toNat = _
      rw [hpop, Cpu.reg_setReg, hcount]
      omega
    · change Holds entries ((int15 s.1 (nextRequest s.2)).2.pop (.reg .ax)).mem _ _
      rw [hpop]
      exact hholds
  rcases Nat.lt_or_ge (i + 1) entries.length with hlt | hge
  · have hat := h.more (Or.inl hlt)
    rw [← hbx] at hat
    have hreply := hans.reply _ _ _ hreq hat
    obtain ⟨hcarry, -, hdx, hbytes⟩ := hans.entry _ _ _ hlt hreq hat
    have hholds := nextAnswer_holds hready h hn hreply hlt hbytes
    by_cases hmore : i + 2 < entries.length ∨ byCarry = true
    · right
      obtain ⟨hbx0, hat'⟩ := hans.more _ _ _ hlt hreq hat hmore
      obtain ⟨hpop, hbody, hdi⟩ := nextAnswer_spec hready h hn hreply
      refine ⟨_, layoutLoop_next hcarry hbx0, ?_⟩
      have hreg : ∀ r : Reg, r ≠ .ax → r ≠ .sp →
          (nextAnswer int15 s).2.reg r = (int15 s.1 (nextRequest s.2)).2.reg r := by
        intro r hax hsp
        exact (Cpu.reg_setReg_of_ne _ _ _ _ hax).trans (Cpu.reg_drop_of_ne _ _ _ hsp)
      constructor
      · exact hbody
      · change (((int15 s.1 (nextRequest s.2)).2.pop (.reg .ax)).reg .ax).toNat = _
        rw [hpop, Cpu.reg_setReg]
        omega
      · exact hdi
      · rw [hreg .dx (by decide) (by decide)]
        exact hdx
      · exact hlt
      · intro _
        rw [hreg .bx (by decide) (by decide)]
        exact hat'
      · intro hlast hby
        rcases hmore with hmore | hmore
        · omega
        · rw [hby] at hmore
          exact absurd hmore Bool.false_ne_true
      · intro hby
        rw [hby] at hmore
        exact Or.inl (hmore.resolve_right Bool.false_ne_true)
      · change Holds entries ((int15 s.1 (nextRequest s.2)).2.pop (.reg .ax)).mem _ _
        rw [hpop]
        exact hholds
    · -- the last entry came with a zero, so it is not counted
      left
      rw [not_or] at hmore
      have hby : byCarry = false := Bool.eq_false_iff.mpr hmore.2
      have hlen : entries.length = i + 2 := by omega
      refine hend _ hat ?_ (Or.inr (hans.last _ _ _ (by omega) hby hreq hat)) ?_
      · rw [countedEntries, if_neg (by rw [hby]; simp; omega)]
        omega
      · rw [hlen]
        exact hholds
  · left
    have hlen : entries.length = i + 1 := by omega
    cases hby : byCarry with
    | true =>
      have hat := h.more (Or.inr hby)
      rw [← hbx] at hat
      have hcarry : carry (int15 s.1 (nextRequest s.2)).2 = true :=
        hans.past _ _ hby hreq (by rw [hlen]; exact hat)
      rw [← hby]
      refine hend _ hat ?_ (Or.inl hcarry) ?_
      · rw [countedEntries, if_pos (Or.inl hby), hlen]
      · rw [hlen]
        exact nextRequest_holds hready h hn (hans.reply _ _ _ hreq hat)
    | false =>
      -- the only entry came with a zero, which starts the list over
      have hone : entries.length = 1 := by
        have hopen := h.unfinished hby
        omega
      have hzero : (s.2.reg .bx).toNat = 0 := h.last (by omega) hby
      have hat : At s.1 0 ((nextRequest s.2).reg .bx).toNat := by
        rw [hbx, hzero]
        exact hans.start _
      rw [← hby]
      refine hend _ hat ?_ (Or.inr (hans.last _ _ _ (by omega) hby hreq hat)) ?_
      · rw [countedEntries, if_pos (Or.inr hone), hlen]
      · rw [hlen]
        exact nextRequest_holds hready h hn (hans.reply _ _ _ hreq hat)

end Next

/-! ## The whole routine -/

theorem layoutDone_spec (hready : Ready infosBytes own depth entries.length c₀)
    (hn : entries.length ≤ 3000) (h : LayoutEnd entries byCarry c₀ c) :
    ((layoutDone infosBytes c).reg .ax).toNat = 20 * countedEntries entries.length byCarry ∧
      Holds entries (layoutDone infosBytes c).mem (layoutBase c₀) entries.length := by
  have hinfos : c.linear .ds infosBytes = c₀.linear .ds infosBytes := by
    simp only [Cpu.linear, h.body.ds]
  have hstored : InProc 0 c₀ (c.store 4 .ds infosBytes (c.reg .ax).toNat) [] := by
    have htop := h.body.top
    apply h.body.toInProc.keep
    · rw [Cpu.seg_store]
    · rw [Cpu.reg_store]
    · rw [Cpu.reg_store]
    · intro a hle hlt
      have hapart := hready.stack_infos
      rw [bytes_nil] at htop
      rw [Cpu.mem_store, hinfos, Memory.store_of_not_mem _ _ (by omega)]
  have hend := hstored.finish
  rw [Cpu.mem_store, Cpu.cr_store, hinfos] at hend
  rw [layoutDone, hend]
  constructor
  · rw [Cpu.reg_setReg]
    change Memory.load (Memory.store _ (c₀.linear .ds infosBytes) 4 _)
      (c₀.linear .ds infosBytes) 4 % 2 ^ 32 = _
    have hcount : countedEntries entries.length byCarry ≤ entries.length := by
      rw [countedEntries]
      split <;> omega
    rw [Memory.load_store, h.ax]
    omega
  · intro k hk hlt j
    have hj := j.isLt
    have hapart := hready.infos_buffer
    rw [Cpu.mem_setReg]
    change Memory.store _ (c₀.linear .ds infosBytes) 4 _ _ = _
    rw [Memory.store_of_not_mem _ _ (by omega)]
    exact h.holds k hk hlt j

/-- The loop ends. -/
theorem layoutLoop_returns (hans : Answers int15 entries byCarry own depth At)
    (hready : Ready infosBytes own depth entries.length c₀) (hn : entries.length ≤ 3000)
    {s : B × Cpu} (h : LayoutInv int15 entries byCarry At c₀ 0 s) :
    ∃ t, Returns (layoutLoop int15) s t ∧ LayoutEnd entries byCarry c₀ t.2 := by
  apply returns_of_variant (fun t => ∃ i, LayoutInv int15 entries byCarry At c₀ i t)
    (fun t => 20 * entries.length - (t.2.reg .ax).toNat)
    (fun t : B × Cpu => LayoutEnd entries byCarry c₀ t.2) _ ⟨0, h⟩
  rintro t ⟨i, hi⟩
  refine (layoutLoop_step hans hready hn hi).imp id ?_
  rintro ⟨t', hstep, hi'⟩
  refine ⟨t', hstep, ⟨i + 1, hi'⟩, ?_⟩
  have hax := hi.ax
  have hax' := hi'.ax
  have hdel := hi.delivered
  omega

/-- The routine returns with the entries in memory and the bytes that it counted. -/
theorem getMemoryLayout_returns (hans : Answers int15 entries byCarry own depth At)
    (hready : Ready infosBytes own depth entries.length c₀) (hn : 1 ≤ entries.length)
    (hmax : entries.length ≤ 3000) (b : B) :
    ∃ fuel t, getMemoryLayout int15 infosBytes fuel (b, c₀) = some t ∧
      (t.2.reg .ax).toNat = 20 * countedEntries entries.length byCarry ∧
      Holds entries t.2.mem (layoutBase c₀) entries.length := by
  obtain ⟨hcarry, hax, hinv⟩ := first_inv hans hready hn b
  obtain ⟨t, ⟨fuel, hfuel⟩, ht⟩ := layoutLoop_returns hans hready hmax hinv
  refine ⟨fuel, (t.1, layoutDone infosBytes t.2), ?_, layoutDone_spec hready hmax ht⟩
  have hcarry' : ¬ carry (int15 b (firstRequest c₀)).2 = true := by
    rw [hcarry]
    exact Bool.false_ne_true
  simp only [getMemoryLayout]
  rw [if_neg hcarry', if_neg (not_not.mpr hax), hfuel, Option.map_some]

/-- The result does not depend on the bound of the loop. -/
theorem getMemoryLayout_unique {fuel fuel' : Nat} {s t t' : B × Cpu}
    (h : getMemoryLayout int15 infosBytes fuel s = some t)
    (h' : getMemoryLayout int15 infosBytes fuel' s = some t') : t = t' := by
  simp only [getMemoryLayout] at h h'
  split at h
  · rename_i hc
    rw [if_pos hc] at h'
    exact Option.some.inj (h.symm.trans h')
  · rename_i hc
    rw [if_neg hc] at h'
    split at h
    · rename_i hax
      rw [if_pos hax] at h'
      exact Option.some.inj (h.symm.trans h')
    · rename_i hax
      rw [if_neg hax] at h'
      obtain ⟨r, hr, rfl⟩ := Option.map_eq_some_iff.mp h
      obtain ⟨r', hr', rfl⟩ := Option.map_eq_some_iff.mp h'
      have heq : r = r' := Returns.unique ⟨fuel, hr⟩ ⟨fuel', hr'⟩
      rw [heq]

/-- The routine gives the whole map exactly when the list ends with the carry
flag or has one entry. -/
theorem getMemoryLayout_complete_iff (hans : Answers int15 entries byCarry own depth At)
    (hready : Ready infosBytes own depth entries.length c₀) (hn : 1 ≤ entries.length)
    (hmax : entries.length ≤ 3000) (b : B) :
    (∃ fuel t, getMemoryLayout int15 infosBytes fuel (b, c₀) = some t ∧
      (t.2.reg .ax).toNat = 20 * entries.length ∧
      Holds entries t.2.mem (layoutBase c₀) entries.length) ↔
      byCarry = true ∨ entries.length = 1 := by
  obtain ⟨fuel, t, hrun, hax, hholds⟩ :=
    getMemoryLayout_returns hans hready hn hmax b
  constructor
  · rintro ⟨fuel', t', hrun', hax', -⟩
    have heq := getMemoryLayout_unique hrun hrun'
    rw [← heq, hax, countedEntries] at hax'
    by_contra hnot
    rw [if_neg hnot] at hax'
    omega
  · intro hends
    refine ⟨fuel, t, hrun, ?_, hholds⟩
    rw [hax, countedEntries, if_pos hends]

end Routine

/-! ## A BIOS with a list -/

/-- A BIOS whose continuation value is the number of the next entry. -/
def listBios (entries : List Entry) (byCarry : Bool) (_ : Unit) (c : Cpu) : Unit × Cpu :=
  if h : (c.reg .bx).toNat < entries.length then
    let e := entries[(c.reg .bx).toNat]
    let next := if (c.reg .bx).toNat + 1 < entries.length ∨ byCarry = true
      then (c.reg .bx).toNat + 1 else 0
    let m := fun a => if ha : buffer c ≤ a ∧ a < buffer c + 20
      then e ⟨a - buffer c, by omega⟩ else c.mem a
    let c := { c with flags := 0, mem := m }
    ((), ((c.setReg .ax smap).setReg .dx smap).setReg .bx next)
  else ((), { c with flags := 1 })

theorem listBios_of_lt (entries : List Entry) (byCarry : Bool) (u : Unit) (c : Cpu) {i : Nat}
    (hi : i < entries.length) (hbx : (c.reg .bx).toNat = i) :
    Reply ∅ 0 c (listBios entries byCarry u c).2 ∧
      carry (listBios entries byCarry u c).2 = false ∧
      ((listBios entries byCarry u c).2.reg .ax).toNat = smap ∧
      ((listBios entries byCarry u c).2.reg .dx).toNat = smap ∧
      ((listBios entries byCarry u c).2.reg .bx).toNat
        = (if i + 1 < entries.length ∨ byCarry = true then i + 1 else 0) % 2 ^ 32 ∧
      ∀ j : Fin 20, (listBios entries byCarry u c).2.mem (buffer c + j) = entries[i] j := by
  subst hbx
  rw [listBios, dif_pos hi]
  refine ⟨⟨rfl, by simp, by simp, by simp, ?_⟩, by simp [carry], by simp [smap], by simp [smap], by simp, ?_⟩
  · intro a _ _ hbuf
    exact dif_neg (by omega)
  · intro j
    have hj := j.isLt
    refine (dif_pos (by omega)).trans ?_
    exact congrArg _ (Fin.ext (by dsimp only; omega))

theorem listBios_answers (entries : List Entry) (byCarry : Bool) (hlen : entries.length < 2 ^ 32) :
    Answers (listBios entries byCarry) entries byCarry ∅ 0 (fun _ i v => v = i) := by
  constructor
  · intro _
    rfl
  · intro u c i _ hat
    by_cases hi : i < entries.length
    · exact (listBios_of_lt entries byCarry u c hi hat).1
    · rw [listBios, dif_neg (by omega)]
      exact ⟨rfl, rfl, rfl, rfl, fun _ _ _ _ => rfl⟩
  · intro u c i hi _ hat
    obtain ⟨-, hcarry, hax, hdx, -, hbytes⟩ := listBios_of_lt entries byCarry u c hi hat
    exact ⟨hcarry, hax, hdx, hbytes⟩
  · intro u c i hi _ hat hmore
    obtain ⟨-, -, -, -, hbx, -⟩ := listBios_of_lt entries byCarry u c hi hat
    rw [if_pos hmore] at hbx
    omega
  · intro u c i hlast hby _ hat
    have hi : i < entries.length := by omega
    obtain ⟨-, -, -, -, hbx, -⟩ := listBios_of_lt entries byCarry u c hi hat
    rw [if_neg (by rw [hby]; simp; omega)] at hbx
    exact hbx
  · intro u c _ _ hat
    rw [listBios, dif_neg (by omega)]
    simp [carry]

/-- The processor as the second stage calls the routine. -/
def memoryCpu : Cpu where
  reg r := if r = .sp then 0xFFFF else if r = .ax then 0x1900 else 0
  seg _ := 0
  flags := 0
  cr _ := 0
  mem _ := 0

theorem memoryCpu_ready (n : Nat) : Ready 0x500 ∅ 0 n memoryCpu := by
  have hsp : memoryCpu.word .sp = 0xFFFF := rfl
  have htop : memoryCpu.top = 0xFFFF := rfl
  have hbase : layoutBase memoryCpu = 0x19000 := rfl
  have hinfos : memoryCpu.linear .ds 0x500 = 0x500 := rfl
  constructor
  · rw [hsp, procBytes]
    omega
  · rw [htop, hbase]
    omega
  · rw [htop, hinfos, procBytes]
    omega
  · rw [hinfos, hbase]
    omega
  · intro a ha
    exact absurd ha (Set.notMem_empty a)
  · intro a ha
    exact absurd ha (Set.notMem_empty a)

def twoEntries : List Entry := [fun _ => 1, fun _ => 2]

theorem getMemoryLayout_complete_iff_boot :
    (∃ fuel t, getMemoryLayout (listBios twoEntries true) 0x500 fuel
        ((), memoryCpu) = some t ∧
      (t.2.reg .ax).toNat = 20 * 2 ∧
      Holds twoEntries t.2.mem (layoutBase memoryCpu) 2) ↔
      true = true ∨ 2 = 1 :=
  getMemoryLayout_complete_iff (listBios_answers twoEntries true (by decide))
    (memoryCpu_ready 2) (by decide) (by decide) ()

/-- A map of two entries whose end is a zero in `EBX`: the routine counts one. -/
theorem getMemoryLayout_drops_last :
    Answers (listBios twoEntries false) twoEntries false ∅ 0
        (fun _ i v => v = i) ∧
      Ready 0x500 ∅ 0 2 memoryCpu ∧
      (∃ fuel t, getMemoryLayout (listBios twoEntries false) 0x500 fuel
        ((), memoryCpu) = some t ∧ (t.2.reg .ax).toNat = 20) ∧
      ¬ ∃ fuel t, getMemoryLayout (listBios twoEntries false) 0x500 fuel
        ((), memoryCpu) = some t ∧ (t.2.reg .ax).toNat = 20 * 2 := by
  have hans := listBios_answers twoEntries false (by decide)
  have hready := memoryCpu_ready 2
  obtain ⟨fuel, t, hrun, hax, -⟩ :=
    getMemoryLayout_returns hans hready (by decide) (by decide) ()
  have hcount : countedEntries 2 false = 1 := by decide
  rw [show twoEntries.length = 2 from rfl, hcount] at hax
  refine ⟨hans, hready, ⟨fuel, t, hrun, hax⟩, ?_⟩
  rintro ⟨fuel', t', hrun', hax'⟩
  have heq := getMemoryLayout_unique hrun hrun'
  rw [← heq, hax] at hax'
  omega

end Xeos.Boot
