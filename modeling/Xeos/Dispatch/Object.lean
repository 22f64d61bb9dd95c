import Xeos.Lib.Ledger
import Xeos.System.AtomicAddOrder

/-!
# The references of a dispatch object

`dispatch_retain` and `dispatch_release` count the references of an object with
`System_Atomic_Increment32` and `System_Atomic_Decrement32`, and the release that gets a zero frees
the object.

Any number of processors share an object, in any order of the instructions of the two routines.
On i386 the object is freed once, by the release of the last reference, and no call that is still
in progress then looks at it.  On x86-64 the object is never freed, since the decrement returns
the amount and not the new count.
-/

namespace Xeos.Dispatch

open Lib Lib.Interleave Lib.Interleave.Machine Lib.Ledger
open Xeos.System.Atomic (Addition wordAt Width)

/-! ## The calls -/

/-- The fields of an object that a release looks at, behind its count. -/
structure Object where
  context : Nat
  queue : Nat
  finalizer : Nat

/-- What a release does with the object.  The finalizer is called on the queue of the object. -/
inductive Effect where
  | finalize (onCurrentQueue : Bool)
  | free
deriving DecidableEq, Repr

/-- `dispatch_release` behind its decrement, which has returned `count`. -/
def dispatch_release (object : Object) (currentQueue : Nat) (count : BitVec 32) : List Effect :=
  if count = 0 then
    (if object.context ≠ 0 ∧ object.queue ≠ 0 ∧ object.finalizer ≠ 0
      then [.finalize (object.queue = currentQueue)] else []) ++ [.free]
  else []

/-- An object is freed for a count of zero only, and its finalizer is called in front. -/
theorem free_mem_dispatch_release (object : Object) (currentQueue : Nat) (count : BitVec 32) :
    .free ∈ dispatch_release object currentQueue count ↔ count = 0 := by
  rw [dispatch_release]
  split
  · next h => simp [h]
  · next h =>
    refine ⟨fun hmem => ?_, fun hzero => absurd hzero h⟩
    cases hmem

/-- A call of a processor that returned: a retain is an increment of the count, and a release a
decrement. -/
abbrev Call := Addition 32 × BitVec 32

/-- The references of a processor behind a call. -/
def after (n : Nat) : Addition 32 → Nat
  | .increment => n + 1
  | .decrement => n - 1
  | .add _ => n

/-- The references of a processor that had `start` of them. -/
def held (start : Nat) (calls : List Call) : Nat := calls.foldl (fun n c => after n c.1) start

@[simp]
theorem held_append (start : Nat) (calls : List Call) (c : Call) :
    held start (calls ++ [c]) = after (held start calls) c.1 := by
  rw [held, List.foldl_append]
  rfl

/-- The releases that free the object. -/
def frees (calls : List Call) : Nat := calls.countP fun c => c = (.decrement, 0)

@[simp]
theorem frees_append (calls : List Call) (c : Call) :
    frees (calls ++ [c]) = frees calls + if c = (.decrement, 0) then 1 else 0 := by
  rw [frees, List.countP_append, List.countP_singleton]
  simp only [decide_eq_true_eq]
  rfl

/-- A processor calls with a reference of its own, and does not take more of them than `bound`. -/
structure May (bound n : Nat) (op : Addition 32) : Prop where
  pos : 0 < n
  call : op = .increment ∧ n < bound ∨ op = .decrement

section Runs

variable {ι Local Shared : Type} [DecidableEq ι] (M : Machine Local Shared (Addition 32) (BitVec 32))
variable (start : ι → Nat) (bound : Nat)

/-- The runs in which every processor keeps to that. -/
inductive Owned : System ι Local Shared (Addition 32) (BitVec 32) →
    System ι Local Shared (Addition 32) (BitVec 32) → Prop
  | refl (s) : Owned s s
  | next {s s' s'' i} (hrun : Owned s s')
      (hstep : M.Step (fun _ _ => True) (fun _ _ _ => True) s' i s'')
      (howns : ∀ op l, s'.phase i = .idle → s''.phase i = .busy op l →
        May bound (held (start i) (s'.past i)) op) : Owned s s''

/-- The calls of a processor that took effect. -/
def Stands (Pending : Addition 32 → Local → Prop)
    (s : System ι Local Shared (Addition 32) (BitVec 32)) (i : ι) (calls : List Call) : Prop :=
  match s.phase i with
  | .idle => calls = s.past i
  | .busy op l => (Pending op l ∧ calls = s.past i ∧ May bound (held (start i) calls) op) ∨
    ∃ r, Returning M r l ∧ calls = s.past i ++ [(op, r)]

/-- The references of all processors, and the releases that freed the object. -/
def references [Fintype ι] (calls : ι → List Call) : Nat :=
  total (fun p : Nat × List Call => held p.1 p.2) fun i => (start i, calls i)

def freed [Fintype ι] (calls : ι → List Call) : Nat := total frees calls

/-- The count is that of the references, and the object has been freed when there are none. -/
structure Counts [Fintype ι] (view : Shared → BitVec 32) (Pending : Addition 32 → Local → Prop)
    (s : System ι Local Shared (Addition 32) (BitVec 32)) (calls : ι → List Call) : Prop where
  stands : ∀ i, Stands M start bound Pending s i (calls i)
  bounded : ∀ i, held (start i) (calls i) ≤ bound
  count : (view s.shared).toNat = references start calls
  freed : freed calls = if references start calls = 0 then 1 else 0

end Runs

/-! ## One call takes effect -/

section Effect

variable {ι : Type} [DecidableEq ι] [Fintype ι] {start : ι → Nat} {bound : Nat} {i : ι}

theorem references_update (start : ι → Nat) (calls : ι → List Call) (i : ι) (c : Call) :
    references start (Function.update calls i (calls i ++ [c])) + held (start i) (calls i)
      = references start calls + after (held (start i) (calls i)) c.1 := by
  have hpair : (fun k => (start k, Function.update calls i (calls i ++ [c]) k))
      = Function.update (fun k => (start k, calls k)) i (start i, calls i ++ [c]) := by
    funext k
    by_cases hk : k = i
    · subst hk
      rw [Function.update_self, Function.update_self]
    · rw [Function.update_of_ne hk, Function.update_of_ne hk]
  have hupdate := total_update (fun p : Nat × List Call => held p.1 p.2)
    (fun k => (start k, calls k)) i (start i, calls i ++ [c])
  rw [← hpair, held_append] at hupdate
  exact hupdate

theorem freed_update (calls : ι → List Call) (i : ι) (c : Call) :
    freed (Function.update calls i (calls i ++ [c]))
      = freed calls + if c = (.decrement, 0) then 1 else 0 := by
  have hupdate := total_update frees calls i (calls i ++ [c])
  rw [frees_append] at hupdate
  rw [freed, freed]
  omega

omit [DecidableEq ι] in
theorem references_le {calls : ι → List Call} (h : ∀ i, held (start i) (calls i) ≤ bound) :
    references start calls ≤ Fintype.card ι * bound := by
  have hsum := Finset.sum_le_card_nsmul Finset.univ (fun i => held (start i) (calls i)) bound
    fun i _ => h i
  rwa [Finset.card_univ, smul_eq_mul] at hsum

omit [DecidableEq ι] in
theorem held_le_references (start : ι → Nat) (calls : ι → List Call) (i : ι) :
    held (start i) (calls i) ≤ references start calls :=
  @share_le_total _ _ _ (fun p : Nat × List Call => held p.1 p.2)
    (fun k => (start k, calls k)) i

omit [Fintype ι] in
theorem bounded_update {calls : ι → List Call} {op : Addition 32} {r : BitVec 32}
    (h : ∀ i, held (start i) (calls i) ≤ bound) (hmay : May bound (held (start i) (calls i)) op) :
    ∀ k, held (start k) (Function.update calls i (calls i ++ [(op, r)]) k) ≤ bound := by
  intro k
  by_cases hk : k = i
  · subst hk
    rw [Function.update_self, held_append]
    rcases hmay.call with ⟨rfl, hlt⟩ | rfl
    · exact hlt
    · exact Nat.le_trans (Nat.sub_le _ _) (h k)
  · rw [Function.update_of_ne hk]
    exact h k

/-- The count follows the references, and a zero is that of the last one. -/
theorem counts_effect {calls : ι → List Call} {op : Addition 32} {w w' r : BitVec 32}
    (hroom : Fintype.card ι * bound < 2 ^ 32) (hbounded : ∀ i, held (start i) (calls i) ≤ bound)
    (hmay : May bound (held (start i) (calls i)) op) (hspec : op.Spec w w' r)
    (hcount : w.toNat = references start calls)
    (hfreed : freed calls = if references start calls = 0 then 1 else 0) :
    w'.toNat = references start (Function.update calls i (calls i ++ [(op, r)])) ∧
      freed (Function.update calls i (calls i ++ [(op, r)]))
        = if references start (Function.update calls i (calls i ++ [(op, r)])) = 0 then 1 else 0 := by
  obtain ⟨hw, hr⟩ := hspec
  have hpos := hmay.pos
  have hle := held_le_references start calls i
  subst hr
  have hupdate := references_update start calls i (op, r)
  have hlimit := references_le (bounded_update (r := r) hbounded hmay)
  have hone : (1 : BitVec 32).toNat = 1 := rfl
  rw [freed_update, hfreed, if_neg (by omega), Nat.zero_add]
  rcases hmay.call with ⟨rfl, -⟩ | rfl
  · change _ = references start calls + (held (start i) (calls i) + 1) at hupdate
    have hnew : r.toNat = w.toNat + 1 := by
      rw [hw, Addition.amount, BitVec.toNat_add, hone,
        Nat.mod_eq_of_lt (by omega)]
    have hne : ((.increment, r) : Call) ≠ (.decrement, 0) := by
      intro h
      cases h
    rw [if_neg hne, if_neg (by omega)]
    exact ⟨by omega, rfl⟩
  · change _ = references start calls + (held (start i) (calls i) - 1) at hupdate
    have hnew : r.toNat + 1 = w.toNat := by
      have hlt := w.isLt
      rw [hw, Addition.amount, BitVec.toNat_add, BitVec.toNat_neg, hone]
      omega
    have hzero : ((.decrement, r) : Call) = (.decrement, 0) ↔ r.toNat = 0 := by
      rw [Prod.mk.injEq, BitVec.toNat_eq]
      exact ⟨fun h => h.2, fun h => ⟨rfl, h⟩⟩
    have hcount' : r.toNat
        = references start (Function.update calls i (calls i ++ [(Addition.decrement, r)])) := by omega
    refine ⟨hcount', ?_⟩
    rw [if_congr hzero rfl rfl, ← hcount']

end Effect

/-! ## Runs -/

section Runs

variable {ι Local Shared : Type} [DecidableEq ι] [Fintype ι]
variable {M : Machine Local Shared (Addition 32) (BitVec 32)} {view : Shared → BitVec 32}
variable {Pending : Addition 32 → Local → Prop} {start : ι → Nat} {bound : Nat}
variable {s s' : System ι Local Shared (Addition 32) (BitVec 32)} {calls : ι → List Call} {j : ι}

omit [DecidableEq ι] [Fintype ι] in
theorem Stands.congr {i : ι} {c : List Call} (h : Stands M start bound Pending s i c)
    (hphase : s'.phase i = s.phase i) (hpast : s'.past i = s.past i) :
    Stands M start bound Pending s' i c := by
  unfold Stands
  rw [hphase, hpast]
  exact h

omit [DecidableEq ι] [Fintype ι] in
theorem Stands.of_idle {i : ι} {c : List Call} (hphase : s.phase i = .idle) (h : c = s.past i) :
    Stands M start bound Pending s i c := by
  unfold Stands
  rw [hphase]
  exact h

omit [DecidableEq ι] [Fintype ι] in
theorem Stands.of_pending {i : ι} {c : List Call} {op : Addition 32} {l : Local}
    (hphase : s.phase i = .busy op l) (hpending : Pending op l) (h : c = s.past i)
    (hmay : May bound (held (start i) c) op) : Stands M start bound Pending s i c := by
  unfold Stands
  rw [hphase]
  exact Or.inl ⟨hpending, h, hmay⟩

omit [DecidableEq ι] [Fintype ι] in
theorem Stands.of_returning {i : ι} {c : List Call} {op : Addition 32} {l : Local} {r : BitVec 32}
    (hphase : s.phase i = .busy op l) (hreturning : Returning M r l)
    (h : c = s.past i ++ [(op, r)]) : Stands M start bound Pending s i c := by
  unfold Stands
  rw [hphase]
  exact Or.inr ⟨r, hreturning, h⟩

/-- A step keeps the count that of the references. -/
theorem Counts.step (himp : Implements M (fun _ _ _ => True) view Addition.Spec Pending)
    (hroom : Fintype.card ι * bound < 2 ^ 32) (h : Counts M start bound view Pending s calls)
    (hstep : M.Step (fun _ _ => True) (fun _ _ _ => True) s j s')
    (howns : ∀ op l, s.phase j = .idle → s'.phase j = .busy op l →
      May bound (held (start j) (s.past j)) op) :
    ∃ calls', Counts M start bound view Pending s' calls' := by
  have hj := h.stands j
  unfold Stands at hj
  cases hstep with
  | @call op l hidle _ henter =>
    rw [hidle] at hj
    have hbusy : Function.update s.phase j (.busy op l) j = .busy op l := Function.update_self _ _ _
    refine ⟨calls, fun i => ?_, h.bounded, h.count, h.freed⟩
    by_cases hi : i = j
    · subst hi
      have hmay := howns op l hidle hbusy
      exact .of_pending hbusy (himp.enter op l henter) hj (hj ▸ hmay)
    · exact (h.stands i).congr (Function.update_of_ne hi _ _) rfl
  | @instr op l l' m' hbusy _ hinstr =>
    rw [hbusy] at hj
    have hself : Function.update s.phase j (.busy op l') j = .busy op l' :=
      Function.update_self _ _ _
    -- the others are where they were
    have hother : ∀ i, i ≠ j → Stands M start bound Pending
        { s with phase := Function.update s.phase j (.busy op l'), shared := m' } i (calls i) :=
      fun i hi => (h.stands i).congr (Function.update_of_ne hi _ _) rfl
    rcases hj with ⟨hpending, hown, hmay⟩ | ⟨r, hreturning, hown⟩
    · rcases himp.step op l s.shared l' m' hpending trivial hinstr with
        ⟨hview, hpending'⟩ | ⟨r, hspec, hreturning⟩
      · refine ⟨calls, fun i => ?_, h.bounded, by rw [hview]; exact h.count, h.freed⟩
        by_cases hi : i = j
        · subst hi
          exact .of_pending hself hpending' hown hmay
        · exact hother i hi
      · obtain ⟨hcount, hfreed⟩ :=
          counts_effect hroom h.bounded hmay hspec h.count h.freed
        refine ⟨_, fun i => ?_, bounded_update h.bounded hmay, hcount, hfreed⟩
        by_cases hi : i = j
        · subst hi
          refine .of_returning hself hreturning ?_
          rw [Function.update_self, hown]
        · rw [Function.update_of_ne hi]
          exact hother i hi
    · obtain ⟨rfl, hreturning'⟩ := hreturning.step hinstr
      refine ⟨calls, fun i => ?_, h.bounded, h.count, h.freed⟩
      by_cases hi : i = j
      · subst hi
        exact .of_returning hself hreturning' hown
      · exact hother i hi
  | @ret op l r hbusy hresult =>
    rw [hbusy] at hj
    refine ⟨calls, fun i => ?_, h.bounded, h.count, h.freed⟩
    by_cases hi : i = j
    · subst hi
      refine .of_idle (Function.update_self _ _ _) ?_
      rcases hj with ⟨hpending, -, -⟩ | ⟨r', hreturning, hown⟩
      · rw [himp.result op l hpending] at hresult
        cases hresult
      · rw [hreturning.result_eq hresult s.shared]
        exact hown.trans (Function.update_self i _ s.past).symm
    · exact (h.stands i).congr (Function.update_of_ne hi _ _) (Function.update_of_ne hi _ _)

/-- Every state of a run. -/
theorem counts_of_owned (himp : Implements M (fun _ _ _ => True) view Addition.Spec Pending)
    (hroom : Fintype.card ι * bound < 2 ^ 32) (hrun : Owned M start bound s s')
    (h : Counts M start bound view Pending s calls) :
    ∃ calls', Counts M start bound view Pending s' calls' := by
  induction hrun with
  | refl => exact ⟨calls, h⟩
  | next _ hstep howns ih =>
    obtain ⟨calls', h'⟩ := ih
    exact h'.step himp hroom hstep howns

/-- The object is freed once: behind the last reference, and when no call is in front of its access
to the count. -/
structure FreedOnce (M : Machine Local Shared (Addition 32) (BitVec 32)) (start : ι → Nat)
    (view : Shared → BitVec 32) (s : System ι Local Shared (Addition 32) (BitVec 32)) : Prop where
  once : freed s.past ≤ 1
  quiet : 0 < freed s.past → ∀ i op l, s.phase i = .busy op l → ∃ r, Returning M r l
  given_back : 0 < freed s.past → ∀ i, s.phase i = .idle → held (start i) (s.past i) = 0
  count : (∀ i, s.phase i = .idle) → (view s.shared).toNat = references start s.past
  last : (∀ i, s.phase i = .idle) → references start s.past = 0 → freed s.past = 1

omit [DecidableEq ι] in
theorem freedOnce_of_counts (h : Counts M start bound view Pending s calls) :
    FreedOnce M start view s := by
  have hidle : ∀ i, s.phase i = .idle → calls i = s.past i := by
    intro i hi
    have hstands := h.stands i
    unfold Stands at hstands
    rw [hi] at hstands
    exact hstands
  have hle : freed s.past ≤ freed calls := by
    apply Finset.sum_le_sum
    intro i _
    have hstands := h.stands i
    unfold Stands at hstands
    cases hphase : s.phase i with
    | idle => rw [hidle i hphase]
    | busy op l =>
      rw [hphase] at hstands
      rcases hstands with ⟨-, hown, -⟩ | ⟨r, -, hown⟩
      · rw [hown]
      · rw [hown, frees_append]
        exact Nat.le_add_right _ _
  have hzero : 0 < freed s.past → ∀ i, held (start i) (calls i) = 0 := by
    intro hpos i
    have hnone : references start calls = 0 := by
      by_contra hne
      have hfreed := h.freed
      rw [if_neg hne] at hfreed
      omega
    have hshare := held_le_references start calls i
    omega
  have hall : (∀ i, s.phase i = .idle) → calls = s.past := fun hi => funext fun i => hidle i (hi i)
  refine ⟨?_, fun hpos i op l hbusy => ?_, fun hpos i hi => ?_, fun hi => ?_, fun hi hnone => ?_⟩
  · have hfreed := h.freed
    split at hfreed <;> omega
  · have hstands := h.stands i
    unfold Stands at hstands
    rw [hbusy] at hstands
    rcases hstands with ⟨-, -, hmay⟩ | ⟨r, hreturning, -⟩
    · have hpos' := hmay.pos
      rw [hzero hpos i] at hpos'
      omega
    · exact ⟨r, hreturning⟩
  · rw [← hidle i hi]
    exact hzero hpos i
  · rw [h.count, hall hi]
  · have hfreed := h.freed
    rw [hall hi, if_pos hnone] at hfreed
    exact hfreed

end Runs

/-- Before any call the processors have the references that the object was given with. -/
theorem counts_start {ι Local Shared : Type} [Fintype ι]
    {M : Machine Local Shared (Addition 32) (BitVec 32)} {view : Shared → BitVec 32}
    {Pending : Addition 32 → Local → Prop} {start : ι → Nat} {bound : Nat} {m : Shared}
    (hbounded : ∀ i, start i ≤ bound) (hpos : 0 < ∑ i, start i)
    (hcount : (view m).toNat = ∑ i, start i) :
    Counts M start bound view Pending (.start ι Local _ _ m) fun _ => [] where
  stands _ := rfl
  bounded := hbounded
  count := hcount
  freed := by
    have hreferences : references start (fun _ => []) = ∑ i, start i := rfl
    rw [hreferences, if_neg (by omega)]
    exact total_eq_zero fun _ => rfl

/-! ## A last release -/

/-- The count of an object with one reference, at 0x1000. -/
def oneReference : Memory := fun a => if a = 0x1000 then 1 else 0

/-! ## x86-64 -/

/-- What the routines for x86-64 do: they return the amount. -/
def ReturnsAmount {n : Nat} (op : Addition n) (w w' r : BitVec n) : Prop :=
  w' = w + op.amount ∧ r = op.amount

theorem amount_of_legal {ι : Type} {n : Nat} {w w' : BitVec n}
    {log : List (ι × Addition n × BitVec n)} (h : Legal ReturnsAmount w log w') :
    ∀ c ∈ log, c.2.2 = c.2.1.amount := by
  induction h with
  | nil =>
    intro c hc
    cases hc
  | snoc _ hspec ih =>
    intro c hc
    rcases List.mem_append.mp hc with hc | hc
    · exact ih c hc
    · rw [List.mem_singleton.mp hc]
      exact hspec.2

/-- No amount is a zero. -/
theorem frees_of_amount {calls : List Call} (h : ∀ c ∈ calls, c.2 = c.1.amount) :
    frees calls = 0 := by
  apply List.countP_eq_zero.mpr
  intro c hc hzero
  have hamount := h c hc
  rw [of_decide_eq_true hzero] at hamount
  exact absurd hamount (by decide)

section

open Xeos.System.Atomic

/-- The locked addition gets to the word, and the result is the amount whatever it found there. -/
theorem attempt_amount {w : Width} {p : Nat} {m m' : Memory} {l l' : Smp.Cpu Routine}
    {op : Addition w.bits} (hfits : p + w.bits / 8 ≤ 2 ^ 64) (hat : X86_64.AtXadd w p op.amount l)
    (hstep : X86_64.program.step l m = some (l', m')) :
    ReturnsAmount op (wordAt w p m) (wordAt w p m') op.amount ∧
      Returning (Addition.machine .x86_64 w p) op.amount l' := by
  obtain ⟨f, r, s, zf, cf, d, e, hf, hd, he, rfl⟩ := hat
  obtain ⟨zf', cf', hxadd⟩ := @X86_64.step_xadd w p d r s zf cf f e m
  rw [hxadd] at hstep
  obtain ⟨rfl, rfl⟩ := Prod.mk.inj (Option.some.inj hstep)
  have haddr : (p + 0) % 2 ^ 64 = p := by
    have hpos : 0 < w.bits / 8 := by cases w <;> decide
    rw [Nat.add_zero, Nat.mod_eq_of_lt (by omega)]
  rw [haddr, wordAt_store_add, ofNat_of_mod hd]
  have hreturning := @X86_64.returning_of_xadd w p r s zf' cf' f e (m.load p (w.bits / 8)) hf
  rw [he, ofNat_of_mod (Nat.mod_eq_of_lt op.amount.isLt)] at hreturning
  exact ⟨⟨rfl, rfl⟩, hreturning⟩

theorem implements_amount (w : Width) {p : Nat} (hp : p ≠ 0) (hfits : p + w.bits / 8 ≤ 2 ^ 64) :
    Implements (Addition.machine .x86_64 w p) (fun _ _ _ => True) (wordAt w p) ReturnsAmount
      (fun op => Reaches (Addition.machine .x86_64 w p) (Addition.Attempt .x86_64 w p op)) := by
  have hpos : 0 < w.bits / 8 := by cases w <;> decide
  have hmod : p % 2 ^ Arch.x86_64.program.bits ≠ 0 := by
    have hlt : p < 2 ^ Arch.x86_64.program.bits := show p < 2 ^ 64 by omega
    rwa [Nat.mod_eq_of_lt hlt]
  exact implements_of_attempt (fun _ _ => Addition.reaches_attempt hmod)
    (fun _ _ => Addition.result_attempt)
    (fun _ _ _ _ _ hat _ hstep => Or.inr ⟨_, attempt_amount hfits hat hstep⟩)

end

/-- On x86-64, in every run of retains and releases, no release gets a zero: whatever it was, the
object is not freed. -/
theorem never_freed {ι : Type} [DecidableEq ι] [Fintype ι] {p : Nat} (hp : p ≠ 0)
    (hfits : p + 4 ≤ 2 ^ 64) {m : Memory}
    {s : System ι (Smp.Cpu System.Atomic.Routine) Memory (Addition 32) (BitVec 32)}
    (hrun : (Addition.machine .x86_64 .w32 p).Run (fun _ _ => True) (fun _ _ _ => True)
      (.start ι _ _ _ m) s) : freed s.past = 0 := by
  obtain ⟨log, hlegal, htracks⟩ := linearizable (implements_amount .w32 hp hfits) hrun
  apply total_eq_zero
  intro i
  apply frees_of_amount
  intro c hc
  have hlog := (htracks i).own_eq.1.subset hc
  obtain ⟨c', hmem, rfl⟩ := List.mem_map.mp hlog
  exact amount_of_legal hlegal c' (List.mem_of_mem_filter hmem)

/-- The only reference of an object is released, and the release gets the amount. -/
theorem never_freed_release : ∃ s : System Unit (Smp.Cpu System.Atomic.Routine) Memory
      (Addition 32) (BitVec 32), s.past () = [(.decrement, -1)] ∧ freed s.past = 0 := by
  have hcall : (Addition.machine .x86_64 .w32 0x1000).Enter .decrement
      (System.Atomic.Arch.x86_64.call .Decrement32 (.word 0x1000) (.word 0) (.word 0)
        System.Atomic.zeros) := ⟨System.Atomic.zeros, .word 0, .word 0, rfl⟩
  have hsteps : ∃ l m, (Addition.machine .x86_64 .w32 0x1000).steps 11
        (System.Atomic.Arch.x86_64.call .Decrement32 (.word 0x1000) (.word 0) (.word 0)
          System.Atomic.zeros) oneReference = some (l, m) ∧
      (Addition.machine .x86_64 .w32 0x1000).result l = some (-1) := ⟨_, _, rfl, rfl⟩
  obtain ⟨l, m, hsteps, hresult⟩ := hsteps
  have hrun := @run_call Unit _ _ _ _ _ (Addition.machine .x86_64 .w32 0x1000)
    (fun _ _ => True) (fun _ _ _ => True) (.start Unit _ _ _ oneReference) () _ _ _ _ _ _ rfl
    trivial hcall (fun _ _ _ _ _ => trivial) hsteps hresult
  exact ⟨_, rfl, never_freed (by decide) (by decide) hrun⟩

end Xeos.Dispatch
