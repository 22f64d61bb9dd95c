import Mathlib.Data.List.Basic
import Mathlib.Logic.Function.Basic
import Xeos.Lib.Loop

/-!
# The trace of the kernel

The two functions that the compiler calls on every entry of a function and on every exit.
They keep the innermost active calls in an array: an entry moves all symbols up by one place
and an exit moves them down.  A symbol that is moved over the end is lost, so after a deep
call the trace is shorter than the stack of the calls, but what it holds is still its top.

A pointer is its address, with `NULL` as zero.
-/

namespace Xeos.Debug

open Lib

/-! ## The code -/

/-- `struct __XEOS_Debug_Symbol`. -/
structure Symbol where
  function : Nat
  callSite : Nat
deriving DecidableEq, Repr

/-- `struct __XEOS_Debug_Trace`. -/
structure Trace where
  symbols : Nat → Symbol
  count : Nat
  capacity : Nat

/-- `__XEOS_DEBUG_KERNEL_TRACE_MAX_LENGTH`. -/
def MAX_LENGTH : Nat := 50

/-- `__XEOS_Debug_KernelTrace` and `__XEOS_Debug_KernelTraceSymbolsInited`. -/
structure State where
  trace : Trace
  inited : Bool

/-- The state before the first call. -/
def State.boot (symbols : Nat → Symbol) : State := ⟨⟨symbols, 0, MAX_LENGTH⟩, false⟩

/-- The part of `__cyg_profile_func_enter` that the first call executes. -/
def initSymbols (s : State) : State :=
  if s.inited then s
  else
    { inited := true
      trace := { s.trace with
        symbols := forLoop (fun i a => Function.update a i ⟨0, 0⟩) s.trace.capacity
          s.trace.symbols } }

/-- The loop of `__cyg_profile_func_enter`, with `i` from 1 on. -/
def moveUp (capacity : Nat) (symbols : Nat → Symbol) : Nat → Symbol :=
  forLoop (fun k a =>
    let i := k + 1
    Function.update a (capacity - i) (a (capacity - 1 - i))) (capacity - 1) symbols

/-- The loop of `__cyg_profile_func_exit`. -/
def moveDown (capacity : Nat) (symbols : Nat → Symbol) : Nat → Symbol :=
  forLoop (fun i a => Function.update a i (a (i + 1))) (capacity - 1) symbols

/-- `__cyg_profile_func_enter`. -/
def cygProfileFuncEnter (function caller : Nat) (s : State) : State :=
  let s := initSymbols s
  { s with
    trace := { s.trace with
      symbols := Function.update (moveUp s.trace.capacity s.trace.symbols) 0 ⟨function, caller⟩
      count := if s.trace.count < s.trace.capacity then s.trace.count + 1 else s.trace.count } }

/-- `__cyg_profile_func_exit`. -/
def cygProfileFuncExit (_function _caller : Nat) (s : State) : State :=
  if s.trace.count = 0 ∨ s.inited = false then s
  else
    { s with
      trace := { s.trace with
        symbols := Function.update (moveDown s.trace.capacity s.trace.symbols)
          (s.trace.capacity - 1) ⟨0, 0⟩
        count := s.trace.count - 1 } }

/-! ## Runs -/

inductive Event where
  | enter (symbol : Symbol)
  | exit (symbol : Symbol)

def Event.exec : Event → State → State
  | .enter symbol, s => cygProfileFuncEnter symbol.function symbol.callSite s
  | .exit symbol, s => cygProfileFuncExit symbol.function symbol.callSite s

/-- The state after some events. -/
def run (events : List Event) (s : State) : State := events.foldl (fun s event => event.exec s) s

/-- The calls that are active after some events, the innermost one first.  Every exit leaves
the innermost active call. -/
inductive Active : List Event → List Symbol → Prop
  | nil : Active [] []
  | enter {events : List Event} {calls : List Symbol} (symbol : Symbol) (h : Active events calls) :
      Active (events ++ [.enter symbol]) (symbol :: calls)
  | exit {events : List Event} {calls : List Symbol} {symbol : Symbol}
      (h : Active events (symbol :: calls)) : Active (events ++ [.exit symbol]) calls

/-- The depth has never been over `n`. -/
def NeverDeeper (n : Nat) (events : List Event) : Prop :=
  ∀ start calls, start <+: events → Active start calls → calls.length ≤ n

/-! ## The two loops -/

section Move

variable {capacity i : Nat} {symbols : Nat → Symbol}

theorem moveUp_apply (hi : 0 < i) (hcap : i < capacity) :
    moveUp capacity symbols i = symbols (i - 1) := by
  -- the last `k` places have been filled, and those in front of them are as they were
  have hloop := forLoop_inv
    (fun k a => Function.update a (capacity - (k + 1)) (a (capacity - 1 - (k + 1))))
    (capacity - 1) symbols
    (fun k (a : Nat → Symbol) => ∀ j < capacity,
      a j = if capacity - k ≤ j then symbols (j - 1) else symbols j)
    (fun j hj => by rw [if_neg (by omega)])
    (fun k a hk ha j hj => by
      by_cases hplace : j = capacity - (k + 1)
      · rw [if_pos (by omega), hplace, Function.update_self, ha _ (by omega), if_neg (by omega)]
        congr 1
        omega
      · rw [Function.update_of_ne hplace, ha j hj]
        split_ifs <;> first | rfl | omega)
  rw [moveUp, hloop i hcap, if_pos (by omega)]

theorem moveDown_apply (hcap : i + 1 < capacity) :
    moveDown capacity symbols i = symbols (i + 1) := by
  have hloop := forLoop_inv (fun i a => Function.update a i (a (i + 1))) (capacity - 1) symbols
    (fun k (a : Nat → Symbol) => ∀ j, a j = if j < k then symbols (j + 1) else symbols j)
    (fun j => by rw [if_neg (Nat.not_lt_zero j)])
    (fun k a hk ha j => by
      by_cases hplace : j = k
      · rw [if_pos (by omega), hplace, Function.update_self, ha, if_neg (by omega)]
      · rw [Function.update_of_ne hplace, ha j]
        split_ifs <;> first | rfl | omega)
  rw [moveDown, hloop i, if_pos (by omega)]

end Move

/-! ## What the trace holds -/

/-- The trace holds the innermost ones of the active calls. -/
structure Traces (s : State) (calls : List Symbol) : Prop where
  capacity : s.trace.capacity = MAX_LENGTH
  bounded : s.trace.count ≤ s.trace.capacity
  innermost : ∀ i < s.trace.count, calls[i]? = some (s.trace.symbols i)
  started : s.inited = false → s.trace.count = 0

section Step

variable {s : State} {calls : List Symbol} {symbol : Symbol}

theorem Traces.initSymbols (h : Traces s calls) : Traces (initSymbols s) calls := by
  unfold Debug.initSymbols
  by_cases hinited : s.inited = true
  · rw [if_pos hinited]
    exact h
  · have hcount := h.started (Bool.eq_false_iff.mpr hinited)
    rw [if_neg hinited]
    exact ⟨h.capacity, h.bounded, fun i hi => absurd hi (by rw [hcount]; exact Nat.not_lt_zero i),
      nofun⟩

theorem initSymbols_inited (s : State) : (initSymbols s).inited = true := by
  unfold initSymbols
  split
  · assumption
  · rfl

theorem initSymbols_count (s : State) : (initSymbols s).trace.count = s.trace.count := by
  unfold initSymbols
  split <;> rfl

theorem Traces.enter (h : Traces s calls) (symbol : Symbol) :
    Traces (cygProfileFuncEnter symbol.function symbol.callSite s) (symbol :: calls) := by
  have ht := h.initSymbols
  have hcap := ht.capacity
  have hbound := ht.bounded
  refine ⟨ht.capacity, ?_, ?_, fun hinited => ?_⟩
  · simp only [cygProfileFuncEnter]
    split_ifs <;> omega
  · intro i hi
    simp only [cygProfileFuncEnter] at hi ⊢
    cases i with
    | zero => rw [Function.update_self, List.getElem?_cons_zero]
    | succ i =>
      have hlt : i < (Debug.initSymbols s).trace.count ∧
          i + 1 < (Debug.initSymbols s).trace.capacity := by
        split_ifs at hi <;> omega
      rw [Function.update_of_ne (Nat.succ_ne_zero i), moveUp_apply (Nat.succ_pos i) hlt.2,
        List.getElem?_cons_succ]
      exact ht.innermost i hlt.1
  · simp only [cygProfileFuncEnter, initSymbols_inited] at hinited
    cases hinited

theorem Traces.exit (h : Traces s (symbol :: calls)) (function caller : Nat) :
    Traces (cygProfileFuncExit function caller s) calls := by
  unfold cygProfileFuncExit
  by_cases hzero : s.trace.count = 0
  · rw [if_pos (.inl hzero)]
    exact ⟨h.capacity, h.bounded, fun i hi => absurd hi (by omega), h.started⟩
  · have hinited : s.inited ≠ false := fun hinited => hzero (h.started hinited)
    have hbound := h.bounded
    rw [if_neg (by simp [hzero, hinited])]
    refine ⟨h.capacity, ?_, ?_, fun hfalse => absurd hfalse hinited⟩
    · change s.trace.count - 1 ≤ s.trace.capacity
      omega
    · intro i hi
      simp only at hi ⊢
      rw [Function.update_of_ne (by omega), moveDown_apply (by omega)]
      exact h.innermost (i + 1) (by omega)

theorem enter_count (s : State) (function caller : Nat) :
    (cygProfileFuncEnter function caller s).trace.count
      = if s.trace.count < (initSymbols s).trace.capacity then s.trace.count + 1
        else s.trace.count := by
  simp only [cygProfileFuncEnter, initSymbols_count]

theorem exit_count (h : Traces s calls) (function caller : Nat) :
    (cygProfileFuncExit function caller s).trace.count = s.trace.count - 1 := by
  unfold cygProfileFuncExit
  by_cases hzero : s.trace.count = 0
  · rw [if_pos (.inl hzero), hzero]
  · have hinited : s.inited ≠ false := fun hinited => hzero (h.started hinited)
    rw [if_neg (by simp [hzero, hinited])]

end Step

/-! ## Whole runs -/

section Run

variable {events : List Event} {calls : List Symbol}

theorem run_append (event : Event) (s : State) :
    run (events ++ [event]) s = event.exec (run events s) := by
  rw [run, List.foldl_append]
  rfl

theorem traces_run (symbols : Nat → Symbol) (h : Active events calls) :
    Traces (run events (State.boot symbols)) calls := by
  induction h with
  | nil => exact ⟨rfl, Nat.zero_le _, fun i hi => absurd hi (Nat.not_lt_zero i), fun _ => rfl⟩
  | enter symbol _ ih =>
    rw [run_append]
    exact ih.enter symbol
  | @exit events calls symbol _ ih =>
    rw [run_append]
    exact ih.exit symbol.function symbol.callSite

theorem NeverDeeper.start {n : Nat} {event : Event} (h : NeverDeeper n (events ++ [event])) :
    NeverDeeper n events :=
  fun start calls hstart => h start calls (hstart.trans (List.prefix_append _ _))

/-- No symbol is lost while all calls fit. -/
theorem count_run (symbols : Nat → Symbol) (h : Active events calls)
    (hdepth : NeverDeeper MAX_LENGTH events) :
    (run events (State.boot symbols)).trace.count = calls.length := by
  induction h with
  | nil => rfl
  | @enter events calls symbol h ih =>
    have hfits := hdepth _ _ List.prefix_rfl (h.enter symbol)
    have hcap := (traces_run symbols h).initSymbols.capacity
    rw [List.length_cons] at hfits
    rw [run_append, Event.exec, enter_count, ih hdepth.start, hcap, if_pos (by omega),
      List.length_cons]
  | @exit events calls symbol h ih =>
    have hcount := ih hdepth.start
    rw [List.length_cons] at hcount
    rw [run_append, Event.exec, exit_count (traces_run symbols h), hcount, Nat.add_sub_cancel]

/-- After every event the trace holds the innermost active calls, and all of them as long as
the depth has not been over the capacity. -/
theorem trace_innermost (symbols : Nat → Symbol) (h : Active events calls) :
    let trace := (run events (State.boot symbols)).trace
    trace.count ≤ trace.capacity ∧
      (List.range trace.count).map trace.symbols = calls.take trace.count ∧
      (NeverDeeper trace.capacity events → trace.count = calls.length) := by
  intro trace
  have htraces := traces_run symbols h
  refine ⟨htraces.bounded, ?_, fun hdepth => ?_⟩
  · apply List.ext_getElem?
    intro i
    by_cases hi : i < trace.count
    · rw [List.getElem?_take_of_lt hi, htraces.innermost i hi]
      simp [hi, trace]
    · rw [List.getElem?_eq_none (by simpa using hi),
        List.getElem?_eq_none (by rw [List.length_take]; omega)]
  · rw [htraces.capacity] at hdepth
    exact count_run symbols h hdepth

theorem trace_innermost_enter :
    let trace := (run [.enter ⟨0x1000, 0x2000⟩] (State.boot fun _ => ⟨0, 0⟩)).trace
    (List.range trace.count).map trace.symbols = [⟨0x1000, 0x2000⟩] :=
  (trace_innermost (fun _ => ⟨0, 0⟩) (Active.nil.enter ⟨0x1000, 0x2000⟩)).2.1

end Run

end Xeos.Debug
