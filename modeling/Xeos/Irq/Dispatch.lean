import Xeos.Hal.Idt
import Xeos.Irq.Handlers

/-!
# From an interrupt line to its handlers

The set-up of `XEOS_Main`, the interrupt service routine `XEOS_ISR_IRQ`, and the
delivery of a line by the controllers and the processor.  A kernel runs through
registrations, removals and deliveries in any order.

The loop of `XEOS_Main` that installs `XEOS_ISR_IRQ` stops before the vector
`0x2F`, so the last line has no handler function behind its gate.
-/

namespace Xeos.Irq

open Lib Hal Hal.Pic Hal.Idt

/-- The handler functions that `XEOS_Main` installs. -/
inductive ISRHandler where
  | exception
  | irq
  | sysCall
deriving DecidableEq, Repr

/-- What a delivery does that can be seen from outside. -/
inductive Event (H : Type) where
  /-- A call of a handler with its argument `irq`. -/
  | call (handler : H) (irq : Irq)
  /-- A write to a port of a controller. -/
  | portOut (port value : UInt8)
deriving DecidableEq, Repr

structure Kernel (H : Type) where
  chips : Chips
  idt : Tables ISRHandler
  irq : State H
  log : List (Event H)

variable {H : Type}

/-! ## The set-up of `XEOS_Main` -/

/-- `for( i = start; i < stop; i++ ) XEOS_HAL_IDT_SetISREntry( i, ..., handler )`, for a
ring 0 interrupt gate. -/
def setISREntries (start stop : Nat) (handler : ISRHandler) (t : Tables ISRHandler) :
    Tables ISRHandler :=
  forLoop (fun j => SetISREntry (UInt8.ofNat (start + j)) 0x08 0x0E 0 true (some handler))
    (stop - start) t

/-- The sections of `XEOS_Main` from the IDT to the system call.  The flag
`__XEOS_IRQ_Inited` has its static initializer, and everything else is as the
machine left it. -/
def XEOS_Main (chips : Chips) (idt : Tables ISRHandler) (handlers : Irq → HandlerArray H) :
    Kernel H :=
  let idt := Idt.Init idt
  let chips := Pic.Remap 0x20 0x28 chips
  let idt := setISREntries 0x00 0x14 .exception idt
  let idt := setISREntries 0x20 0x2F .irq idt
  let idt := SetISREntry 0x80 0x08 0x0E 0 true (some .sysCall) idt
  { chips := chips, idt := idt, irq := ⟨false, handlers⟩, log := [] }

/-! ## The interrupt service routine -/

def SendEOI (c : Controller) (k : Kernel H) : Kernel H :=
  { k with
    chips := Pic.SendCommand c 0x20 k.chips
    log := k.log ++ [.portOut (GetRegister c .command) 0x20] }

/-- The switch of `XEOS_ISR_IRQ`. -/
def lineOf : UInt8 → Option Irq
  | 0x20 => some 0
  | 0x21 => some 1
  | 0x22 => some 2
  | 0x23 => some 3
  | 0x24 => some 4
  | 0x25 => some 5
  | 0x26 => some 6
  | 0x27 => some 7
  | 0x28 => some 8
  | 0x29 => some 9
  | 0x2A => some 10
  | 0x2B => some 11
  | 0x2C => some 12
  | 0x2D => some 13
  | 0x2E => some 14
  | 0x2F => some 15
  | _ => none

def ISR_IRQ (isr : UInt8) (k : Kernel H) : Kernel H :=
  match lineOf isr with
  | none => k
  | some irq =>
    let result := ExecuteIRQHandlers irq k.irq
    let k := { k with
      irq := result.1
      log := k.log ++ result.2.map fun call => .call call.1 call.2 }
    let k := if 0x28 ≤ isr then SendEOI .controller2 k else k
    SendEOI .controller1 k

/-! ## What the set-up leaves -/

/-- The handler functions after the set-up. -/
def installed (n : UInt8) : Option ISRHandler :=
  if n = 0x80 then some .sysCall
  else if 0x20 ≤ n.toNat ∧ n.toNat < 0x2F then some .irq
  else if n.toNat < 0x14 then some .exception
  else none

theorem setISREntries_handlers (start stop : Nat) (hstop : stop ≤ 256) (handler : ISRHandler)
    (t : Tables ISRHandler) (n : UInt8) :
    (setISREntries start stop handler t).handlers n =
      if start ≤ n.toNat ∧ n.toNat < stop then some handler else t.handlers n := by
  have hn : n.toNat < 256 := n.toNat_lt
  have hloop := forLoop_inv
    (fun j => SetISREntry (UInt8.ofNat (start + j)) 0x08 0x0E 0 true (some handler))
    (stop - start) t
    (fun k (u : Tables ISRHandler) => u.handlers n =
      if start ≤ n.toNat ∧ n.toNat < start + k then some handler else t.handlers n)
    (by rw [if_neg (by omega)])
    (by
      intro k u hk hu
      have hofNat : (UInt8.ofNat (start + k)).toNat = start + k := by
        rw [UInt8.toNat_ofNat']
        omega
      simp only [SetISREntry_handlers]
      by_cases heq : n = UInt8.ofNat (start + k)
      · have htoNat : n.toNat = start + k := by rw [heq, hofNat]
        rw [heq, Function.update_self, if_pos (by omega)]
      · have hne : n.toNat ≠ start + k := by
          intro h
          exact heq (by rw [← h, UInt8.ofNat_toNat])
        rw [Function.update_of_ne heq, hu]
        by_cases hlt : start ≤ n.toNat ∧ n.toNat < start + k
        · rw [if_pos hlt, if_pos (by omega)]
        · rw [if_neg hlt, if_neg (by omega)])
  rw [setISREntries, hloop]
  by_cases hlt : start ≤ n.toNat ∧ n.toNat < stop
  · rw [if_pos hlt, if_pos (by omega)]
  · rw [if_neg hlt, if_neg (by omega)]

theorem setISREntries_opens (start stop : Nat) (handler : ISRHandler) {t : Tables ISRHandler}
    {n : UInt8} (h : (t.entries n).Opens n) :
    ((setISREntries start stop handler t).entries n).Opens n :=
  forLoop_inv _ _ _ (fun _ (u : Tables ISRHandler) => (u.entries n).Opens n) h
    (fun _ _ _ hu => SetISREntry_opens _ _ _ _ _ hu.base (Or.inr hu))

/-- What every kernel of a run keeps from the set-up. -/
structure Ready (k : Kernel H) : Prop where
  vector : ∀ i, Pic.vector k.chips i = 0x20 + UInt8.ofNat i.val
  opens : ∀ n, (k.idt.entries n).Opens n
  handlers : ∀ n, k.idt.handlers n = installed n

theorem XEOS_Main_idt (chips : Chips) (idt : Tables ISRHandler)
    (handlers : Irq → HandlerArray H) :
    (XEOS_Main chips idt handlers).idt =
      SetISREntry 0x80 0x08 0x0E 0 true (some .sysCall)
        (setISREntries 0x20 0x2F .irq (setISREntries 0x00 0x14 .exception (Idt.Init idt))) := rfl

theorem XEOS_Main_ready (chips : Chips) (idt : Tables ISRHandler)
    (handlers : Irq → HandlerArray H) : Ready (XEOS_Main chips idt handlers) where
  vector := vector_Remap chips
  opens n := by
    rw [XEOS_Main_idt]
    have hexc := setISREntries_opens 0x00 0x14 .exception (Init_opens idt n)
    have hirq := setISREntries_opens 0x20 0x2F .irq hexc
    exact SetISREntry_opens _ _ _ _ _ hirq.base (Or.inr hirq)
  handlers n := by
    rw [XEOS_Main_idt, SetISREntry_handlers, installed]
    by_cases hn : n = 0x80
    · rw [hn, Function.update_self, if_pos rfl]
    · rw [Function.update_of_ne hn, if_neg hn, setISREntries_handlers _ _ (by omega),
        setISREntries_handlers _ _ (by omega), Init_handlers]
      simp only [Nat.zero_le, true_and]

/-! ## One service routine -/

/-- The writes that acknowledge a line: the second controller for its own lines,
then the first one. -/
def acknowledge (i : Irq) : List (Event H) :=
  (if 8 ≤ i.val then [.portOut 0xA0 0x20] else []) ++ [.portOut 0x20 0x20]

theorem lineOf_vector (i : Irq) : lineOf (0x20 + UInt8.ofNat i.val) = some i := by
  revert i
  decide

theorem le_vector_iff (i : Irq) : 0x28 ≤ 0x20 + UInt8.ofNat i.val ↔ 8 ≤ i.val := by
  revert i
  decide

theorem installed_vector (i : Irq) :
    installed (0x20 + UInt8.ofNat i.val) = if i = 15 then none else some .irq := by
  revert i
  decide

theorem SendEOI_eq (c : Controller) (k : Kernel H) :
    SendEOI c k = { k with log := k.log ++ [.portOut (GetRegister c .command) 0x20] } := by
  rw [SendEOI, SendCommand_eoi]

/-- The service routine runs the registered handlers and acknowledges the line. -/
theorem ISR_IRQ_spec (i : Irq) (k : Kernel H) :
    ∃ hs : List H, (hs : Multiset H) = represents k.irq i ∧
      ISR_IRQ (0x20 + UInt8.ofNat i.val) k =
        { k with
          irq := Irq.Init k.irq
          log := k.log ++ (hs.map fun h => .call h i) ++ acknowledge i } := by
  obtain ⟨hinit, hs, hhs, hcalls⟩ := ExecuteIRQHandlers_spec i k.irq
  refine ⟨hs, hhs, ?_⟩
  simp only [ISR_IRQ, lineOf_vector, hinit, hcalls, SendEOI_eq, le_vector_iff, List.map_map]
  by_cases h8 : 8 ≤ i.val
  · simp [h8, acknowledge, GetRegister, Function.comp_def]
  · simp [h8, acknowledge, GetRegister, Function.comp_def]

/-! ## The delivery of a line -/

section Runs

-- the handler functions that no line reaches
variable (other : ISRHandler → UInt8 → Kernel H → Kernel H)

/-- The call of `__XEOS_HAL_IDT_HandleISR` in the stub `isr`. -/
def HandleISR (isr : UInt8) (k : Kernel H) : Kernel H :=
  match Idt.HandleISR isr k.idt with
  | none => k
  | some .irq => ISR_IRQ isr k
  | some handler => other handler isr k

/-- The controllers deliver the line `i`, which is not masked, and the processor
enters the stub of its gate. -/
def deliver (i : Irq) (k : Kernel H) : Kernel H :=
  let gate := k.idt.entries (vector k.chips i)
  if gate.flags &&& 0x80 = 0 then k
  else
    match gate.base with
    | none => k
    | some isr => HandleISR other isr k

theorem HandleISR_irq {isr : UInt8} {k : Kernel H} (h : k.idt.handlers isr = some .irq) :
    HandleISR other isr k = ISR_IRQ isr k := by
  unfold HandleISR
  rw [Idt.HandleISR_eq, h]

theorem HandleISR_none {isr : UInt8} {k : Kernel H} (h : k.idt.handlers isr = none) :
    HandleISR other isr k = k := by
  unfold HandleISR
  rw [Idt.HandleISR_eq, h]

/-- A line other than the last is served. -/
theorem deliver_of_ne {k : Kernel H} (hk : Ready k) {i : Irq} (hi : i ≠ 15) :
    ∃ hs : List H, (hs : Multiset H) = represents k.irq i ∧
      deliver other i k =
        { k with
          irq := Irq.Init k.irq
          log := k.log ++ (hs.map fun h => .call h i) ++ acknowledge i } := by
  obtain ⟨hs, hhs, hrun⟩ := ISR_IRQ_spec i k
  refine ⟨hs, hhs, ?_⟩
  have hgate := hk.opens (0x20 + UInt8.ofNat i.val)
  have hirq : k.idt.handlers (0x20 + UInt8.ofNat i.val) = some .irq := by
    rw [hk.handlers, installed_vector, if_neg hi]
  rw [← hrun]
  simp only [deliver, hk.vector, hgate.base, HandleISR_irq other hirq, if_neg hgate.present]

/-- The last line reaches no handler function. -/
theorem deliver_last {k : Kernel H} (hk : Ready k) : deliver other 15 k = k := by
  have hgate := hk.opens (0x20 + UInt8.ofNat (15 : Irq).val)
  have hnone : k.idt.handlers (0x20 + UInt8.ofNat (15 : Irq).val) = none := by
    rw [hk.handlers, installed_vector, if_pos rfl]
  simp only [deliver, hk.vector, hgate.base, HandleISR_none other hnone, if_neg hgate.present]

/-! ## Whole runs -/

inductive Op (H : Type) where
  | add (irq : Irq) (handler : Option H)
  | remove (irq : Irq) (handler : Option H)
  | deliver (irq : Irq)

variable [DecidableEq H]

/-- One operation on the kernel. -/
def Op.exec : Op H → Kernel H → Kernel H
  | .add irq handler, k => { k with irq := (AddIRQHandler irq handler k.irq).1 }
  | .remove irq handler, k => { k with irq := RemoveIRQHandler irq handler k.irq }
  | .deliver irq, k => Irq.deliver other irq k

/-- The kernel after a sequence of operations. -/
def run (ops : List (Op H)) (k : Kernel H) : Kernel H :=
  ops.foldl (fun k op => op.exec other k) k

/-- The registry after a sequence of operations. -/
def Op.register : Op H → Registry H → Registry H
  | .add irq handler, r => r.add irq handler
  | .remove irq handler, r => r.remove irq handler
  | .deliver _, r => r

def registered (ops : List (Op H)) : Registry H :=
  ops.foldl (fun r op => op.register r) Registry.empty

/-- Every operation keeps the set-up, and the state goes on representing the
registry. -/
theorem exec_ready {k : Kernel H} (hk : Ready k) (op : Op H) :
    Ready (op.exec other k) ∧
      represents (op.exec other k).irq = op.register (represents k.irq) := by
  cases op with
  | add irq handler =>
    exact ⟨⟨hk.vector, hk.opens, hk.handlers⟩, represents_AddIRQHandler irq handler k.irq⟩
  | remove irq handler =>
    exact ⟨⟨hk.vector, hk.opens, hk.handlers⟩, represents_RemoveIRQHandler irq handler k.irq⟩
  | deliver irq =>
    simp only [Op.exec, Op.register]
    by_cases hirq : irq = 15
    · rw [hirq, deliver_last other hk]
      exact ⟨hk, rfl⟩
    · obtain ⟨hs, _, hrun⟩ := deliver_of_ne other hk hirq
      rw [hrun]
      exact ⟨⟨hk.vector, hk.opens, hk.handlers⟩, represents_Init k.irq⟩

theorem run_ready {k : Kernel H} (hk : Ready k) (ops : List (Op H)) :
    Ready (run other ops k) ∧
      represents (run other ops k).irq
        = ops.foldl (fun r op => op.register r) (represents k.irq) := by
  induction ops generalizing k with
  | nil => exact ⟨hk, rfl⟩
  | cons op ops ih =>
    obtain ⟨hready, hrep⟩ := exec_ready other hk op
    obtain ⟨hready', hrep'⟩ := ih hready
    exact ⟨hready', by rw [run, List.foldl_cons, ← run, hrep', hrep]; rfl⟩

/-- The delivery of the line `i` runs the handlers `r`, each with the argument `i`, and
then sends one end of interrupt to each controller that needs it. -/
def Served (i : Irq) (r : Multiset H) (k : Kernel H) : Prop :=
  ∃ hs : List H, (hs : Multiset H) = r ∧
    (deliver other i k).log = k.log ++ (hs.map fun h => .call h i) ++ acknowledge i

/-- After the set-up and any sequence of operations, the delivery of a line is
served exactly when it is not the last line. -/
theorem served_iff (chips : Chips) (idt : Tables ISRHandler) (handlers : Irq → HandlerArray H)
    (ops : List (Op H)) (i : Irq) :
    Served other i (registered ops i) (run other ops (XEOS_Main chips idt handlers))
      ↔ i ≠ 15 := by
  obtain ⟨hready, hrep⟩ := run_ready other (XEOS_Main_ready chips idt handlers) ops
  have hempty : represents (XEOS_Main chips idt handlers).irq = Registry.empty :=
    represents_of_not_inited rfl
  rw [hempty] at hrep
  constructor
  · rintro ⟨hs, _, hlog⟩ rfl
    rw [deliver_last other hready] at hlog
    have hlen := congrArg List.length hlog
    simp [acknowledge] at hlen
  · intro hi
    obtain ⟨hs, hhs, hrun⟩ := deliver_of_ne other hready hi
    rw [hrep] at hhs
    exact ⟨hs, hhs, by rw [hrun]⟩

end Runs

/-! ## The last line -/

/-- A kernel with one handler, registered for the line 15. -/
def lastLine : Kernel Unit :=
  run (fun _ _ k => k) [.add 15 (some ())]
    (XEOS_Main ⟨⟨0x08, 0, .mask⟩, ⟨0x70, 0, .mask⟩⟩ ⟨fun _ => ⟨none, 0, 0⟩, fun _ => none⟩
      fun _ => HandlerArray.clear)

/-- Its delivery does not run the handler and sends no end of interrupt. -/
theorem last_line_dead :
    registered [.add 15 (some ())] 15 = {()} ∧
      (deliver (fun _ _ k => k) 15 lastLine).log = [] ∧
      ¬ Served (fun _ _ k => k) 15 (registered [.add 15 (some ())] 15) lastLine := by
  have hready : Ready lastLine := (run_ready _ (XEOS_Main_ready _ _ _) _).1
  have hlog : (deliver (fun _ _ k => k) 15 lastLine).log = [] := by
    rw [deliver_last _ hready]
    rfl
  refine ⟨rfl, hlog, ?_⟩
  rintro ⟨hs, _, hserved⟩
  rw [hlog] at hserved
  have hlen := congrArg List.length hserved
  simp [acknowledge] at hlen

end Xeos.Irq
