import Mathlib.Logic.Function.Basic
import Xeos.Lib.Loop

/-!
# The interrupt descriptor table

The table of gates and the table of handler functions behind it, with the
functions of `hal/idt`.  A gate holds the number of the stub whose address is in
its base fields, and a reference to a gate is its index in the table.  The type
of the handler functions is a parameter.
-/

namespace Xeos.Hal.Idt

open Lib

/-- `struct __XEOS_HAL_IDT_ISREntry32` and `struct __XEOS_HAL_IDT_ISREntry64`. -/
structure ISREntry where
  /-- The `n` of the stub `__XEOS_HAL_IDT_ISR_n` that the base fields address. -/
  base : Option UInt8
  selector : UInt16
  flags : UInt8
deriving DecidableEq, Repr

/-- `__XEOS_HAL_IDT_ISREntries` and `__XEOS_HAL_IDT_ISRHandlers`. -/
structure Tables (H : Type) where
  entries : UInt8 → ISREntry
  handlers : UInt8 → Option H

/-- `XEOS_HAL_IDT_ISREntryRef`.  `none` is `NULL`. -/
abbrev ISREntryRef := Option UInt8

variable {H : Type}

/-! ## The functions on one gate -/

def GetISREntry (isr : UInt8) : ISREntryRef := some isr

/-- The index of an entry, or -1. -/
def ISREntryGetIndex : ISREntryRef → Int
  | none => -1
  | some n => if 256 ≤ n.toNat then -1 else n.toNat

/-- What the four setters of a field share: nothing happens on `NULL`. -/
def modifyEntry (f : ISREntry → ISREntry) (entry : ISREntryRef) (t : Tables H) : Tables H :=
  match entry with
  | none => t
  | some n => { t with entries := Function.update t.entries n (f (t.entries n)) }

def ISREntrySetSelector (entry : ISREntryRef) (selector : UInt16) : Tables H → Tables H :=
  modifyEntry (fun e => { e with selector := selector }) entry

def ISREntrySetType (entry : ISREntryRef) (type : UInt8) : Tables H → Tables H :=
  modifyEntry (fun e => { e with flags := (e.flags &&& 0xF0) ||| (type &&& 0x0F) }) entry

def ISREntrySetPrivilegeLevel (entry : ISREntryRef) (level : UInt8) : Tables H → Tables H :=
  modifyEntry (fun e => { e with flags := (e.flags &&& 0x9F) ||| ((level <<< (5 : UInt8)) &&& 0x60) }) entry

def ISREntrySetPresent (entry : ISREntryRef) (present : Bool) : Tables H → Tables H :=
  modifyEntry (fun e =>
    { e with flags := if present then e.flags ||| 0x80 else e.flags &&& 0x7F }) entry

def ISREntrySetHandler (entry : ISREntryRef) (handler : Option H) (t : Tables H) : Tables H :=
  let isr := ISREntryGetIndex entry
  if 0 ≤ isr ∧ isr < 256 then
    { t with handlers := Function.update t.handlers (UInt8.ofNat isr.toNat) handler }
  else t

def ISREntryGetHandler (entry : ISREntryRef) (t : Tables H) : Option H :=
  let isr := ISREntryGetIndex entry
  if isr < 0 ∨ 256 ≤ isr then none else t.handlers (UInt8.ofNat isr.toNat)

def SetISREntry (isr : UInt8) (selector : UInt16) (type level : UInt8) (present : Bool)
    (handler : Option H) (t : Tables H) : Tables H :=
  let isrEntry := GetISREntry isr
  let t := ISREntrySetSelector isrEntry selector t
  let t := ISREntrySetType isrEntry type t
  let t := ISREntrySetPrivilegeLevel isrEntry level t
  let t := ISREntrySetPresent isrEntry present t
  ISREntrySetHandler isrEntry handler t

/-- `__XEOS_HAL_IDT_INIT_ISR`. -/
def initISR (i : UInt8) (t : Tables H) : Tables H :=
  modifyEntry (fun e => { e with base := some i }) (some i) t

/-- `XEOS_HAL_IDT_Init`.  Every gate is an interrupt gate that any ring may
call, and has no handler. -/
def Init (_ : Tables H) : Tables H :=
  let t : Tables H := ⟨fun _ => ⟨none, 0, 0⟩, fun _ => none⟩
  let t := forLoop (fun i => initISR (UInt8.ofNat i)) 256 t
  forLoop (fun i t =>
    let isrEntry := GetISREntry (UInt8.ofNat i)
    let t := ISREntrySetSelector isrEntry 0x08 t
    let t := ISREntrySetType isrEntry 0x0E t
    let t := ISREntrySetPrivilegeLevel isrEntry 3 t
    let t := ISREntrySetPresent isrEntry true t
    ISREntrySetHandler isrEntry none t) 256 t

/-- The handler that `__XEOS_HAL_IDT_HandleISR` calls. -/
def HandleISR (isr : UInt8) (t : Tables H) : Option H :=
  ISREntryGetHandler (GetISREntry isr) t

/-! ## What they do to the handlers -/

theorem ISREntryGetIndex_some (n : UInt8) : ISREntryGetIndex (some n) = n.toNat := by
  have hn : n.toNat < 256 := n.toNat_lt
  rw [ISREntryGetIndex, if_neg (by omega)]

theorem HandleISR_eq (isr : UInt8) (t : Tables H) : HandleISR isr t = t.handlers isr := by
  have hn : isr.toNat < 256 := isr.toNat_lt
  simp only [HandleISR, ISREntryGetHandler, GetISREntry, ISREntryGetIndex_some]
  rw [if_neg (by omega), Int.toNat_natCast, UInt8.ofNat_toNat]

theorem ISREntrySetHandler_some (n : UInt8) (handler : Option H) (t : Tables H) :
    ISREntrySetHandler (some n) handler t =
      { t with handlers := Function.update t.handlers n handler } := by
  have hn : n.toNat < 256 := n.toNat_lt
  simp only [ISREntrySetHandler, ISREntryGetIndex_some]
  rw [if_pos (by omega), Int.toNat_natCast, UInt8.ofNat_toNat]

@[simp]
theorem modifyEntry_handlers (f : ISREntry → ISREntry) (entry : ISREntryRef) (t : Tables H) :
    (modifyEntry f entry t).handlers = t.handlers := by
  cases entry with
  | none => rfl
  | some n => rfl

@[simp]
theorem SetISREntry_handlers (isr : UInt8) (selector : UInt16) (type level : UInt8)
    (present : Bool) (handler : Option H) (t : Tables H) :
    (SetISREntry isr selector type level present handler t).handlers
      = Function.update t.handlers isr handler := by
  simp only [SetISREntry, GetISREntry, ISREntrySetHandler_some, ISREntrySetSelector,
    ISREntrySetType, ISREntrySetPrivilegeLevel, ISREntrySetPresent, modifyEntry_handlers]

/-- The second loop of `Init` is a call of `SetISREntry` for each vector. -/
theorem Init_eq (t : Tables H) :
    Init t = forLoop (fun i => SetISREntry (UInt8.ofNat i) 0x08 0x0E 3 true none) 256
      (forLoop (fun i => initISR (UInt8.ofNat i)) 256 ⟨fun _ => ⟨none, 0, 0⟩, fun _ => none⟩) := rfl

theorem Init_handlers (t : Tables H) (n : UInt8) : (Init t).handlers n = none := by
  rw [Init_eq]
  refine forLoop_inv _ _ _ (fun _ (u : Tables H) => u.handlers n = none) ?_ ?_
  · refine forLoop_inv _ _ _ (fun _ (u : Tables H) => u.handlers n = none) ?_ ?_
    · rfl
    · intro k u _ hu
      rw [initISR, modifyEntry_handlers]
      exact hu
  · intro k u _ hu
    rw [SetISREntry_handlers]
    by_cases hk : n = UInt8.ofNat k
    · rw [hk, Function.update_self]
    · rw [Function.update_of_ne hk]
      exact hu

/-! ## The gates -/

/-- The gate of the vector `n` is present and leads to the stub `n`. -/
structure ISREntry.Opens (e : ISREntry) (n : UInt8) : Prop where
  base : e.base = some n
  present : e.flags &&& 0x80 ≠ 0

theorem present_flags (f : UInt8) : (f ||| 0x80) &&& 0x80 ≠ 0 := by
  intro h
  have hbit := congrArg (fun v => v.toBitVec.getLsbD 7) h
  simp at hbit

/-- `SetISREntry` keeps the base of the gate, so a gate that leads to its stub
is present afterwards. -/
theorem SetISREntry_opens (isr : UInt8) (selector : UInt16) (type level : UInt8)
    (handler : Option H) {t : Tables H} {n : UInt8} (h : (t.entries n).base = some n)
    (hn : n = isr ∨ (t.entries n).Opens n) :
    ((SetISREntry isr selector type level true handler t).entries n).Opens n := by
  simp only [SetISREntry, GetISREntry, ISREntrySetHandler_some, ISREntrySetSelector,
    ISREntrySetType, ISREntrySetPrivilegeLevel, ISREntrySetPresent, modifyEntry]
  by_cases hisr : n = isr
  · subst hisr
    simp only [Function.update_self, if_true]
    exact ⟨h, present_flags _⟩
  · simp only [Function.update_of_ne hisr]
    exact hn.resolve_left hisr

/-- The setters of the other fields keep the base. -/
theorem SetISREntry_base (isr : UInt8) (selector : UInt16) (type level : UInt8) (present : Bool)
    (handler : Option H) (t : Tables H) (n : UInt8) :
    ((SetISREntry isr selector type level present handler t).entries n).base
      = (t.entries n).base := by
  simp only [SetISREntry, GetISREntry, ISREntrySetHandler_some, ISREntrySetSelector,
    ISREntrySetType, ISREntrySetPrivilegeLevel, ISREntrySetPresent, modifyEntry]
  by_cases hisr : n = isr
  · subst hisr
    simp only [Function.update_self]
  · simp only [Function.update_of_ne hisr]

/-- A vector below the round `k + 1` is the vector of the round or an earlier
one. -/
theorem eq_ofNat_of_lt_succ {n : UInt8} {k : Nat} (h : n.toNat < k + 1) :
    n = UInt8.ofNat k ∨ n.toNat < k := by
  rcases Nat.lt_or_ge n.toNat k with hlt | hge
  · exact Or.inr hlt
  · have hk : n.toNat = k := by omega
    rw [← hk, UInt8.ofNat_toNat]
    exact Or.inl rfl

/-- `Init` opens every gate. -/
theorem Init_opens (t : Tables H) (n : UInt8) : ((Init t).entries n).Opens n := by
  rw [Init_eq]
  have hbase : ∀ m : UInt8, m.toNat < 256 →
      ((forLoop (fun i => initISR (UInt8.ofNat i)) 256
        (⟨fun _ => ⟨none, 0, 0⟩, fun _ => none⟩ : Tables H)).entries m).base = some m := by
    refine forLoop_inv _ _ _ (fun k (u : Tables H) =>
      ∀ m : UInt8, m.toNat < k → (u.entries m).base = some m) ?_ ?_
    · intro m hm
      exact absurd hm (Nat.not_lt_zero _)
    · intro k u _ hu m hm
      by_cases hmk : m = UInt8.ofNat k
      · simp only [initISR, modifyEntry, ← hmk, Function.update_self]
      · simp only [initISR, modifyEntry, Function.update_of_ne hmk]
        exact hu m ((eq_ofNat_of_lt_succ hm).resolve_left hmk)
  have hloop : ∀ m : UInt8, _ ∧ (m.toNat < 256 → _) :=
    forLoop_inv (fun i => SetISREntry (UInt8.ofNat i) 0x08 0x0E 3 true (none : Option H)) 256
      (forLoop (fun i => initISR (UInt8.ofNat i)) 256 ⟨fun _ => ⟨none, 0, 0⟩, fun _ => none⟩)
      (fun k (u : Tables H) => ∀ m : UInt8, (u.entries m).base = some m ∧
        (m.toNat < k → (u.entries m).Opens m))
      (fun m => ⟨hbase m m.toNat_lt, fun hm => absurd hm (Nat.not_lt_zero _)⟩)
      (fun k u _ hu m =>
        ⟨by rw [SetISREntry_base]; exact (hu m).1,
          fun hm => SetISREntry_opens _ _ _ _ _ (hu m).1
            ((eq_ofNat_of_lt_succ hm).imp_right (hu m).2)⟩)
  exact (hloop n).2 n.toNat_lt

end Xeos.Hal.Idt
