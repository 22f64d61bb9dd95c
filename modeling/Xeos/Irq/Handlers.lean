import Mathlib.Data.Multiset.Filter
import Mathlib.Logic.Function.Basic
import Xeos.Hal.Pic

/-!
# The handlers of the interrupt lines

Each line has an array of 32 function pointers, and a slot that holds `NULL` is
free.  `State` is the sixteen arrays with the flag that `__XEOS_IRQ_Init`
checks; before the first call the arrays may hold anything.

What the arrays are for is `Registry`: a multiset of handlers for each line.
`Represents` relates the two, and every function of the module keeps it.
-/

namespace Xeos.Irq

open Hal.Pic (Irq)

/-- The handler arrays `__XEOS_IRQ_IRQ0Handlers` to `__XEOS_IRQ_IRQ15Handlers`
have `__XEOS_IRQ_MAX_HANDLERS` slots. -/
def MAX_HANDLERS : Nat := 32

/-- One array of function pointers.  `none` is `NULL`. -/
structure HandlerArray (H : Type) where
  slots : List (Option H)
  length_slots : slots.length = MAX_HANDLERS

structure State (H : Type) where
  /-- `__XEOS_IRQ_Inited`. -/
  inited : Bool
  handlers : Irq → HandlerArray H

variable {H : Type}

/-! ## The code -/

/-- The array after `memset( handlers, 0, ... )`. -/
def HandlerArray.clear : HandlerArray H := ⟨List.replicate MAX_HANDLERS none, by simp⟩

/-- `__XEOS_IRQ_Init`. -/
def Init (s : State H) : State H :=
  if s.inited then s else ⟨true, fun _ => HandlerArray.clear⟩

/-- The loop of `XEOS_IRQ_AddIRQHandler` and its result. -/
def fillFirst (handler : Option H) : List (Option H) → List (Option H) × Bool
  | [] => ([], false)
  | none :: rest => (handler :: rest, true)
  | some h :: rest => ((some h :: (fillFirst handler rest).1), (fillFirst handler rest).2)

theorem fillFirst_some (handler : Option H) (h : H) (rest : List (Option H)) :
    fillFirst handler (some h :: rest) =
      (some h :: (fillFirst handler rest).1, (fillFirst handler rest).2) := rfl

theorem length_fillFirst (handler : Option H) (l : List (Option H)) :
    (fillFirst handler l).1.length = l.length := by
  induction l with
  | nil => rfl
  | cons slot rest ih =>
    cases slot with
    | none => rfl
    | some h => simp [fillFirst_some, ih]

def HandlerArray.fillFirst (handler : Option H) (a : HandlerArray H) : HandlerArray H :=
  ⟨(Irq.fillFirst handler a.slots).1, by rw [length_fillFirst, a.length_slots]⟩

def AddIRQHandler (irq : Irq) (handler : Option H) (s : State H) : State H × Bool :=
  let s := Init s
  let handlers := s.handlers irq
  ({ s with handlers := Function.update s.handlers irq (handlers.fillFirst handler) },
    (fillFirst handler handlers.slots).2)

/-- The loop of `XEOS_IRQ_RemoveIRQHandler`. -/
def clearEqual [DecidableEq H] (handler : Option H) (l : List (Option H)) : List (Option H) :=
  l.map fun slot => if slot = handler then none else slot

def HandlerArray.clearEqual [DecidableEq H] (handler : Option H) (a : HandlerArray H) :
    HandlerArray H :=
  ⟨Irq.clearEqual handler a.slots, by rw [Irq.clearEqual, List.length_map, a.length_slots]⟩

def RemoveIRQHandler [DecidableEq H] (irq : Irq) (handler : Option H) (s : State H) : State H :=
  let s := Init s
  let handlers := s.handlers irq
  { s with handlers := Function.update s.handlers irq (handlers.clearEqual handler) }

/-- The calls of `XEOS_IRQ_ExecuteIRQHandlers`, in their order, each a handler
with its argument `irq`. -/
def ExecuteIRQHandlers (irq : Irq) (s : State H) : State H × List (H × Irq) :=
  let s := Init s
  (s, (s.handlers irq).slots.filterMap fun slot => slot.map fun h => (h, irq))

/-! ## What the arrays are for -/

/-- The handlers registered for each line. -/
abbrev Registry (H : Type) := Irq → Multiset H

namespace Registry

def empty : Registry H := fun _ => 0

/-- A registration is accepted while the line has a free slot.  `NULL` registers
nothing. -/
def add (irq : Irq) (handler : Option H) (r : Registry H) : Registry H :=
  match handler with
  | none => r
  | some h =>
    if Multiset.card (r irq) < MAX_HANDLERS then Function.update r irq (h ::ₘ r irq) else r

def remove [DecidableEq H] (irq : Irq) (handler : Option H) (r : Registry H) : Registry H :=
  Function.update r irq ((r irq).filter fun h => some h ≠ handler)

end Registry

/-- The handlers in an array. -/
def HandlerArray.registered (a : HandlerArray H) : Multiset H := (a.slots.filterMap id : List H)

/-- The registry that a state stands for. -/
def represents (s : State H) : Registry H := fun irq => ((Init s).handlers irq).registered

/-! ## The operations keep the relation -/

@[simp]
theorem Init_Init (s : State H) : Init (Init s) = Init s := by
  unfold Init
  split
  · next h => rfl
  · rfl

theorem Init_of_inited {s : State H} (h : s.inited = true) : Init s = s := by
  rw [Init, if_pos h]

theorem Init_inited (s : State H) : (Init s).inited = true := by
  unfold Init
  split
  · assumption
  · rfl

theorem represents_of_not_inited {s : State H} (h : s.inited = false) :
    represents s = Registry.empty := by
  funext irq
  rw [represents, Init, if_neg (by rw [h]; exact Bool.false_ne_true)]
  simp [HandlerArray.registered, HandlerArray.clear, Registry.empty]

/-- Filling a slot adds the handler, if a slot is free. -/
theorem filterMap_fillFirst (h : H) (l : List (Option H)) :
    (((fillFirst (some h) l).1.filterMap id : List H) : Multiset H) =
      if Multiset.card ((l.filterMap id : List H) : Multiset H) < l.length then
        h ::ₘ ((l.filterMap id : List H) : Multiset H)
      else ((l.filterMap id : List H) : Multiset H) := by
  induction l with
  | nil => rfl
  | cons slot rest ih =>
    cases slot with
    | none =>
      have hle := List.length_filterMap_le (id : Option H → Option H) rest
      rw [if_pos]
      · rfl
      · exact Nat.lt_succ_of_le hle
    | some g =>
      simp only [fillFirst_some, List.filterMap_cons, id_eq, Multiset.coe_card, List.length_cons,
        Nat.add_lt_add_iff_right] at ih ⊢
      rw [← Multiset.cons_coe, ih]
      split
      · rw [Multiset.cons_swap, Multiset.cons_coe]
      · rw [Multiset.cons_coe]

/-- The loop returns true exactly when a slot is free. -/
theorem fillFirst_snd (handler : Option H) (l : List (Option H)) :
    (fillFirst handler l).2 = true
      ↔ Multiset.card ((l.filterMap id : List H) : Multiset H) < l.length := by
  induction l with
  | nil => simp [fillFirst]
  | cons slot rest ih =>
    cases slot with
    | none =>
      have hle := List.length_filterMap_le (id : Option H → Option H) rest
      exact ⟨fun _ => Nat.lt_succ_of_le hle, fun _ => rfl⟩
    | some g =>
      rw [fillFirst_some, ih]
      exact Nat.succ_lt_succ_iff.symm

/-- `NULL` in a free slot changes nothing. -/
theorem fillFirst_none (l : List (Option H)) : (fillFirst none l).1 = l := by
  induction l with
  | nil => rfl
  | cons slot rest ih =>
    cases slot with
    | none => rfl
    | some g => rw [fillFirst_some, ih]

theorem filterMap_clearEqual [DecidableEq H] (handler : Option H) (l : List (Option H)) :
    (clearEqual handler l).filterMap id
      = (l.filterMap id).filter fun h => decide (some h ≠ handler) := by
  induction l with
  | nil => rfl
  | cons slot rest ih =>
    simp only [clearEqual, List.map_cons] at ih ⊢
    cases slot with
    | none =>
      simp only [ite_self, List.filterMap_cons, id_eq]
      exact ih
    | some g =>
      by_cases hg : some g = handler
      · simp only [hg, if_true, List.filterMap_cons, id_eq, List.filter_cons]
        simpa using ih
      · simp only [hg, if_false, List.filterMap_cons, id_eq, List.filter_cons]
        simpa [hg] using ih

/-- Reading the line whose array was replaced, and the others. -/
theorem represents_update {s : State H} (hs : s.inited = true) (irq : Irq) (a : HandlerArray H) :
    represents { s with handlers := Function.update s.handlers irq a }
      = Function.update (represents s) irq a.registered := by
  funext j
  by_cases hj : j = irq
  · subst hj
    simp only [represents, Init, hs, if_true, Function.update_self]
  · simp only [represents, Init, hs, if_true, Function.update_of_ne hj]

theorem represents_Init (s : State H) : represents (Init s) = represents s := by
  funext irq
  rw [represents, Init_Init]
  rfl

theorem represents_AddIRQHandler (irq : Irq) (handler : Option H) (s : State H) :
    represents (AddIRQHandler irq handler s).1 = (represents s).add irq handler := by
  have hlen := ((Init s).handlers irq).length_slots
  simp only [AddIRQHandler]
  rw [represents_update (Init_inited s), represents_Init]
  cases handler with
  | none =>
    simp only [HandlerArray.registered, HandlerArray.fillFirst, fillFirst_none, Registry.add]
    exact Function.update_eq_self irq (represents s)
  | some h =>
    have hrep : ((((Init s).handlers irq).slots.filterMap id : List H) : Multiset H)
        = represents s irq := rfl
    simp only [HandlerArray.registered, HandlerArray.fillFirst, filterMap_fillFirst, hlen,
      Registry.add, hrep]
    split
    · rfl
    · exact Function.update_eq_self irq (represents s)

theorem represents_RemoveIRQHandler [DecidableEq H] (irq : Irq) (handler : Option H)
    (s : State H) :
    represents (RemoveIRQHandler irq handler s) = (represents s).remove irq handler := by
  simp only [RemoveIRQHandler]
  rw [represents_update (Init_inited s), represents_Init]
  simp only [HandlerArray.registered, HandlerArray.clearEqual, filterMap_clearEqual,
    Registry.remove]
  rfl

/-- `AddIRQHandler` returns true exactly when the registration is accepted. -/
theorem AddIRQHandler_snd (irq : Irq) (handler : Option H) (s : State H) :
    (AddIRQHandler irq handler s).2 = true
      ↔ Multiset.card (represents s irq) < MAX_HANDLERS := by
  have hlen := ((Init s).handlers irq).length_slots
  rw [← hlen]
  exact fillFirst_snd handler ((Init s).handlers irq).slots

/-- The calls are those of the registered handlers, with the line as argument. -/
theorem ExecuteIRQHandlers_spec (irq : Irq) (s : State H) :
    (ExecuteIRQHandlers irq s).1 = Init s ∧
      ∃ hs : List H, (hs : Multiset H) = represents s irq ∧
        (ExecuteIRQHandlers irq s).2 = hs.map fun h => (h, irq) := by
  refine ⟨rfl, ((Init s).handlers irq).slots.filterMap id, rfl, ?_⟩
  rw [List.map_filterMap]
  rfl

end Xeos.Irq
