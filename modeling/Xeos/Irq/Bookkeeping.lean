import Mathlib.Algebra.BigOperators.Group.Finset.Basic
import Mathlib.Data.Multiset.Count
import Xeos.Irq.Handlers

/-!
# The books of the handler registry

A history is a list of calls with their results.  It says how often each handler is
registered for a line: the successful additions since its last removal from the line.
`execute_additions` says that the slots agree with it after any calls, however the removals
and the later additions have spread the handlers over the slots.
-/

namespace Xeos.Irq

open Hal.Pic (Irq)

variable {H : Type}

/-- A call that changes the registry.  `NULL` can be removed and is never added. -/
inductive Call (H : Type) where
  | add (irq : Irq) (handler : H)
  | remove (irq : Irq) (handler : Option H)

/-- The line of a call. -/
def Call.irq : Call H → Irq
  | .add irq _ => irq
  | .remove irq _ => irq

/-! ## Free slots -/

theorem card_represents_le (s : State H) (irq : Irq) :
    Multiset.card (represents s irq) ≤ MAX_HANDLERS := by
  have hle := List.length_filterMap_le (id : Option H → Option H) ((Init s).handlers irq).slots
  rw [((Init s).handlers irq).length_slots] at hle
  exact hle

/-- An addition fails when there are no free slots. -/
theorem add_eq_false_iff (irq : Irq) (h : H) (s : State H) :
    (AddIRQHandler irq (some h) s).2 = false
      ↔ Multiset.card (represents s irq) = MAX_HANDLERS := by
  have hle := card_represents_le s irq
  rw [← Bool.not_eq_true, AddIRQHandler_snd]
  omega

theorem represents_add (irq : Irq) (h : H) (s : State H) :
    represents (AddIRQHandler irq (some h) s).1
      = if (AddIRQHandler irq (some h) s).2 then
          Function.update (represents s) irq (h ::ₘ represents s irq) else represents s := by
  simp only [represents_AddIRQHandler, Registry.add]
  by_cases hfree : Multiset.card (represents s irq) < MAX_HANDLERS
  · rw [if_pos hfree, if_pos ((AddIRQHandler_snd irq (some h) s).mpr hfree)]
  · rw [if_neg hfree, if_neg fun hadd => hfree ((AddIRQHandler_snd irq (some h) s).mp hadd)]

/-! ## Calls -/

section Exec

variable [DecidableEq H]

/-- The state after a call, with the result of an addition.  A removal has none. -/
def Call.exec : Call H → State H → State H × Bool
  | .add irq handler, s => AddIRQHandler irq (some handler) s
  | .remove irq handler, s => (RemoveIRQHandler irq handler s, true)

/-- The state after some calls, and the calls with their results. -/
def execCalls : List (Call H) → State H → State H × List (Call H × Bool)
  | [], s => (s, [])
  | call :: calls, s =>
    let (t, result) := call.exec s
    let (u, history) := execCalls calls t
    (u, (call, result) :: history)

/-! ## What a history says -/

/-- The number of registrations of `h` for the line after one more call. -/
def countCall (irq : Irq) (h : H) (n : Nat) : Call H × Bool → Nat
  | (.add i g, true) => if i = irq ∧ g = h then n + 1 else n
  | (.add _ _, false) => n
  | (.remove i g, _) => if i = irq ∧ g = some h then 0 else n

/-- The successful additions of `h` to the line since its last removal from the line. -/
def additions (irq : Irq) (h : H) (history : List (Call H × Bool)) : Nat :=
  history.foldl (countCall irq h) 0

/-- The handlers that some call adds. -/
def added (history : List (Call H × Bool)) : Finset H :=
  (history.filterMap fun entry =>
    match entry.1 with
    | .add _ h => some h
    | .remove _ _ => none).toFinset

/-- The registrations that the line holds. -/
def registrations (irq : Irq) (history : List (Call H × Bool)) : Nat :=
  ∑ h ∈ added history, additions irq h history

/-! ## One call -/

/-- A call changes the number of registrations as the books say. -/
theorem count_exec (call : Call H) (s : State H) (irq : Irq) (h : H) :
    (represents (call.exec s).1 irq).count h
      = countCall irq h ((represents s irq).count h) (call, (call.exec s).2) := by
  cases call with
  | add i g =>
    rw [Call.exec, represents_add]
    cases (AddIRQHandler i (some g) s).2 with
    | false => rfl
    | true =>
      simp only [if_true, countCall]
      by_cases hi : i = irq
      · subst hi
        rw [Function.update_self, Multiset.count_cons]
        by_cases hg : g = h
        · simp [hg]
        · simp [hg, Ne.symm hg]
      · rw [Function.update_of_ne (Ne.symm hi), if_neg fun hand => hi hand.1]
  | remove i g =>
    simp only [Call.exec, represents_RemoveIRQHandler, Registry.remove, countCall]
    by_cases hi : i = irq
    · subst hi
      rw [Function.update_self, Multiset.count_filter]
      by_cases hg : g = some h
      · simp [hg]
      · simp [hg, Ne.symm hg]
    · rw [Function.update_of_ne (Ne.symm hi), if_neg fun hand => hi hand.1]

/-- A call leaves the arrays of the other lines. -/
theorem exec_handlers (call : Call H) (s : State H) {j : Irq} (hj : j ≠ call.irq) :
    (call.exec s).1.handlers j = (Init s).handlers j := by
  cases call with
  | add i g => exact Function.update_of_ne hj _ _
  | remove i g => exact Function.update_of_ne hj _ _

theorem exec_inited (call : Call H) (s : State H) : (call.exec s).1.inited = true := by
  cases call with
  | add i g => exact Init_inited s
  | remove i g => exact Init_inited s

theorem execute_exec (call : Call H) (s : State H) {j : Irq} (hj : j ≠ call.irq) :
    (ExecuteIRQHandlers j (call.exec s).1).2 = (ExecuteIRQHandlers j s).2 := by
  simp only [ExecuteIRQHandlers, Init_of_inited (exec_inited call s), exec_handlers call s hj]

/-! ## Histories -/

/-- The registry agrees with the history, from any state on. -/
theorem count_execCalls (calls : List (Call H)) (s : State H) (irq : Irq) (h : H) :
    (represents (execCalls calls s).1 irq).count h
      = (execCalls calls s).2.foldl (countCall irq h) ((represents s irq).count h) := by
  induction calls generalizing s with
  | nil => rfl
  | cons call calls ih =>
    simp only [execCalls, List.foldl_cons]
    rw [ih, count_exec]

/-- A handler that no call adds has no registration. -/
theorem additions_of_not_mem {irq : Irq} {h : H} {history : List (Call H × Bool)}
    (hh : h ∉ added history) : additions irq h history = 0 := by
  have hnone : ∀ entry ∈ history, ∀ i, entry.1 ≠ .add i h := by
    rintro entry hentry i heq
    refine hh (List.mem_toFinset.mpr (List.mem_filterMap.mpr ⟨entry, hentry, ?_⟩))
    rw [heq]
  unfold additions
  clear hh
  induction history with
  | nil => rfl
  | cons entry history ih =>
    have hzero : countCall irq h 0 entry = 0 := by
      obtain ⟨call, result⟩ := entry
      cases call with
      | add i g =>
        have hg : g ≠ h := fun heq => hnone _ List.mem_cons_self i (by rw [heq])
        cases result with
        | false => rfl
        | true => exact if_neg fun hand => hg hand.2
      | remove i g => exact ite_self 0
    rw [List.foldl_cons, hzero]
    exact ih fun e he => hnone e (List.mem_cons_of_mem entry he)

/-- The number of calls of each handler is the number of its registrations. -/
theorem count_execute (s : State H) (irq : Irq) (h : H) :
    (ExecuteIRQHandlers irq s).2.count (h, irq) = (represents s irq).count h := by
  obtain ⟨-, hs, hrep, hcalls⟩ := ExecuteIRQHandlers_spec irq s
  rw [hcalls, ← hrep, Multiset.coe_count]
  exact List.count_map_of_injective hs _ (fun _ _ heq => (Prod.mk.inj heq).1) h

/-- After any calls from the initial state, each handler is called as often as it is
registered, an addition fails exactly when the line is full, and a call has no effect on
another line. -/
theorem execute_additions (handlers : Irq → HandlerArray H) (calls : List (Call H)) :
    let s := (execCalls calls ⟨false, handlers⟩).1
    let history := (execCalls calls ⟨false, handlers⟩).2
    (∀ irq h, (ExecuteIRQHandlers irq s).2.count (h, irq) = additions irq h history) ∧
      (∀ irq, ∀ call ∈ (ExecuteIRQHandlers irq s).2, call.2 = irq) ∧
      (∀ irq h, (AddIRQHandler irq (some h) s).2 = false
        ↔ registrations irq history = MAX_HANDLERS) ∧
      ∀ (call : Call H) (j : Irq), j ≠ call.irq →
        (call.exec s).1.handlers j = (Init s).handlers j ∧
          (ExecuteIRQHandlers j (call.exec s).1).2 = (ExecuteIRQHandlers j s).2 := by
  intro s history
  have hcount : ∀ irq h, (represents s irq).count h = additions irq h history := by
    intro irq h
    have hempty : represents (⟨false, handlers⟩ : State H) = Registry.empty :=
      represents_of_not_inited rfl
    have hrun := count_execCalls calls ⟨false, handlers⟩ irq h
    rw [hempty] at hrun
    exact hrun
  have hcard : ∀ irq, Multiset.card (represents s irq) = registrations irq history := by
    intro irq
    have hmem : ∀ h ∈ represents s irq, h ∈ added history := by
      intro h hh
      by_contra hnot
      have hzero : additions irq h history = 0 := additions_of_not_mem hnot
      rw [← hcount irq h, Multiset.count_eq_zero] at hzero
      exact hzero hh
    rw [← Multiset.sum_count_eq_card hmem, registrations]
    exact Finset.sum_congr rfl fun h _ => hcount irq h
  refine ⟨fun irq h => (count_execute s irq h).trans (hcount irq h), ?_, ?_, ?_⟩
  · intro irq call hcall
    obtain ⟨-, hs, -, hcalls⟩ := ExecuteIRQHandlers_spec irq s
    rw [hcalls] at hcall
    obtain ⟨h, -, rfl⟩ := List.mem_map.mp hcall
    rfl
  · intro irq h
    rw [add_eq_false_iff, hcard]
  · exact fun call j hj => ⟨exec_handlers call s hj, execute_exec call s hj⟩

end Exec

end Xeos.Irq
