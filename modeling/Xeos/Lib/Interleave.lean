import Mathlib.Data.List.Basic
import Mathlib.Logic.Function.Basic

/-!
# Calls on a shared object

Any number of processors that call operations on one shared state.  A processor
is idle or in a call, the instructions of the calls are the steps of a `Machine`,
and any processor may take the next step.

`linearizable` is the rule for the implementation of an object: if every call
takes effect in one of its steps, and returns what it found there, then the calls
of a run have an order in which each of them is one step of the object.
-/

namespace Lib.Interleave

variable {ι Local Shared Op Ret W : Type}

/-- The code of the operations.  A call enters it in one of several states, as
the caller leaves the registers. -/
structure Machine (Local Shared Op Ret : Type) where
  Enter : Op → Local → Prop
  step : Local → Shared → Option (Local × Shared)
  /-- The result of a call that is back in its caller. -/
  result : Local → Option Ret
  step_of_result : ∀ l r m, result l = some r → step l m = none

/-- What a processor does. -/
inductive Phase (Local Op : Type)
  | idle
  | busy (op : Op) (l : Local)

structure System (ι Local Shared Op Ret : Type) where
  phase : ι → Phase Local Op
  /-- The calls that returned, with their results. -/
  past : ι → List (Op × Ret)
  shared : Shared

namespace System

/-- Nothing was called yet. -/
def start (ι Local Op Ret : Type) (m : Shared) : System ι Local Shared Op Ret :=
  ⟨fun _ => .idle, fun _ => [], m⟩

end System

namespace Machine

variable [DecidableEq ι] (M : Machine Local Shared Op Ret)

/-- One step of the processor `i`.  The caller keeps to `Permit`, which sees the
calls of its processor, and `Meets` is a condition on the instructions. -/
inductive Step (Permit : List (Op × Ret) → Op → Prop) (Meets : Op → Local → Shared → Prop) :
    System ι Local Shared Op Ret → ι → System ι Local Shared Op Ret → Prop
  | call {s i op l} (hidle : s.phase i = .idle) (hpermit : Permit (s.past i) op)
      (henter : M.Enter op l) :
      Step Permit Meets s i { s with phase := Function.update s.phase i (.busy op l) }
  | instr {s i op l l' m'} (hbusy : s.phase i = .busy op l) (hmeets : Meets op l s.shared)
      (hstep : M.step l s.shared = some (l', m')) :
      Step Permit Meets s i
        { s with phase := Function.update s.phase i (.busy op l'), shared := m' }
  | ret {s i op l r} (hbusy : s.phase i = .busy op l) (hresult : M.result l = some r) :
      Step Permit Meets s i
        { s with
          phase := Function.update s.phase i .idle
          past := Function.update s.past i (s.past i ++ [(op, r)]) }

/-- A run, of any length and in any order of the processors. -/
inductive Run (Permit : List (Op × Ret) → Op → Prop) (Meets : Op → Local → Shared → Prop) :
    System ι Local Shared Op Ret → System ι Local Shared Op Ret → Prop
  | refl (s) : Run Permit Meets s s
  | next {s s' s'' i} (hrun : Run Permit Meets s s') (hstep : M.Step Permit Meets s' i s'') :
      Run Permit Meets s s''

variable {M} {Permit : List (Op × Ret) → Op → Prop} {Meets : Op → Local → Shared → Prop}
variable {s s' : System ι Local Shared Op Ret}

theorem Step.phase_of_ne {i j : ι} (h : M.Step Permit Meets s j s') (hj : j ≠ i) :
    s'.phase i = s.phase i := by
  cases h with
  | call => exact Function.update_of_ne (Ne.symm hj) _ _
  | instr => exact Function.update_of_ne (Ne.symm hj) _ _
  | ret => exact Function.update_of_ne (Ne.symm hj) _ _

theorem Step.past_of_ne {i j : ι} (h : M.Step Permit Meets s j s') (hj : j ≠ i) :
    s'.past i = s.past i := by
  cases h with
  | call => rfl
  | instr => rfl
  | ret => exact Function.update_of_ne (Ne.symm hj) _ _

/-- What the steps preserve holds in every state of a run. -/
theorem Run.invariant {P : System ι Local Shared Op Ret → Prop}
    (hstep : ∀ s i s', P s → M.Step Permit Meets s i s' → P s') (hrun : M.Run Permit Meets s s')
    (hs : P s) : P s' := by
  induction hrun with
  | refl => exact hs
  | next _ hlast ih => exact hstep _ _ _ ih hlast

theorem Run.trans {s'' : System ι Local Shared Op Ret} (h : M.Run Permit Meets s s')
    (h' : M.Run Permit Meets s' s'') : M.Run Permit Meets s s'' := by
  induction h' with
  | refl => exact h
  | next _ hstep ih => exact ih.next hstep

theorem Run.mono {Meets' : Op → Local → Shared → Prop} (h : M.Run Permit Meets s s')
    (hsub : ∀ op l m, Meets op l m → Meets' op l m) : M.Run Permit Meets' s s' := by
  induction h with
  | refl => exact .refl _
  | next _ hstep ih =>
    apply ih.next
    cases hstep with
    | call hidle hpermit henter => exact .call hidle hpermit henter
    | instr hbusy hmeets hinstr => exact .instr hbusy (hsub _ _ _ hmeets) hinstr
    | ret hbusy hresult => exact .ret hbusy hresult

/-! ## Instructions that leave the shared state alone -/

/-- Whatever the shared state is, the next instructions do not change it and lead
to a state of `T`. -/
inductive Reaches (M : Machine Local Shared Op Ret) (T : Local → Prop) : Local → Prop
  | here {l} (h : T l) : Reaches M T l
  | next {l} (f : Shared → Local) (hstep : ∀ m, M.step l m = some (f m, m))
      (h : ∀ m, Reaches M T (f m)) : Reaches M T l

/-- The call returns `r`, and its instructions up to there do not change the
shared state. -/
def Returning (M : Machine Local Shared Op Ret) (r : Ret) (l : Local) : Prop :=
  Reaches M (fun l => M.result l = some r) l

section Reaches

variable {T T' : Local → Prop} {l l' : Local} {m m' : Shared} {r r' : Ret}

theorem Reaches.mono (h : Reaches M T l) (hsub : ∀ l, T l → T' l) : Reaches M T' l := by
  induction h with
  | here h => exact .here (hsub _ h)
  | next f hstep _ ih => exact .next f hstep ih

theorem Reaches.trans (h : Reaches M T l) (hthen : ∀ l, T l → Reaches M T' l) :
    Reaches M T' l := by
  induction h with
  | here h => exact hthen _ h
  | next f hstep _ ih => exact .next f hstep ih

/-- A step of a processor on the way to a state of `T`. -/
theorem Reaches.step (h : Reaches M T l) (hstep : M.step l m = some (l', m')) :
    T l ∨ m' = m ∧ Reaches M T l' := by
  cases h with
  | here h => exact Or.inl h
  | next f hf h =>
    rw [hf m] at hstep
    obtain ⟨rfl, rfl⟩ := Prod.mk.inj (Option.some.inj hstep)
    exact Or.inr ⟨rfl, h _⟩

/-- A state on the way is not back in the caller, when those of `T` are not. -/
theorem Reaches.result_eq_none (h : Reaches M T l) (hT : ∀ l, T l → M.result l = none)
    (m : Shared) : M.result l = none := by
  cases h with
  | here h => exact hT l h
  | next f hstep h =>
    cases hresult : M.result l with
    | none => rfl
    | some r =>
      have hnone := M.step_of_result l r m hresult
      rw [hstep m] at hnone
      exact nomatch hnone

theorem Returning.step (h : Returning M r l) (hstep : M.step l m = some (l', m')) :
    m' = m ∧ Returning M r l' := by
  rcases Reaches.step h hstep with hresult | hnext
  · rw [M.step_of_result l r m hresult] at hstep
    exact nomatch hstep
  · exact hnext

theorem Returning.result_eq (h : Returning M r l) (hresult : M.result l = some r') (m : Shared) :
    r' = r := by
  cases h with
  | here h => exact Option.some.inj (hresult.symm.trans h)
  | next f hstep h =>
    have hnone := M.step_of_result l r' m hresult
    rw [hstep m] at hnone
    exact nomatch hnone

theorem Returning.unique (h : Returning M r l) (h' : Returning M r' l) (m : Shared) : r = r' := by
  induction h with
  | here h => exact h'.result_eq h m
  | next f hstep _ ih => exact ih m (h'.step (hstep m)).2

/-- A call is not on its way back with `r` when there is a shared state in which it
does something else. -/
theorem not_returning {Pending : Local → Prop} (hresult : ∀ l, Pending l → M.result l = none)
    (hstep : ∀ l l', Pending l → M.step l m = some (l', m) →
      Pending l' ∨ ∃ r', r' ≠ r ∧ Returning M r' l') (h : Pending l) : ¬ Returning M r l := by
  intro hreturning
  induction hreturning with
  | here hr => exact nomatch (hresult _ h).symm.trans hr
  | next f hf hreturns ih =>
    rcases hstep _ _ h (hf m) with hpending | ⟨r', hne, hreturning⟩
    · exact ih m hpending
    · exact hne (hreturning.unique (hreturns m) m)

end Reaches

/-! ## Linearization -/

/-- An object by what its operations do: `Spec op w w' r` says that the operation
may take the value `w` to `w'` and return `r`.  A list of calls is legal when each
of them does so with the value that the calls before it left. -/
inductive Legal (Spec : Op → W → W → Ret → Prop) : W → List (ι × Op × Ret) → W → Prop
  | nil (w) : Legal Spec w [] w
  | snoc {w w' w'' log i op r} (h : Legal Spec w log w') (hspec : Spec op w' w'' r) :
      Legal Spec w (log ++ [(i, op, r)]) w''

omit [DecidableEq ι] in
theorem Legal.eq_of_nil {Spec : Op → W → W → Ret → Prop} {w w' : W}
    (h : Legal (ι := ι) Spec w [] w') : w' = w := by
  generalize hall : ([] : List (ι × Op × Ret)) = all at h
  cases h with
  | nil => rfl
  | snoc => exact absurd hall.symm (List.append_ne_nil_of_right_ne_nil _ (List.cons_ne_nil _ _))

omit [DecidableEq ι] in
/-- The last call of a legal list. -/
theorem Legal.last {Spec : Op → W → W → Ret → Prop} {w w'' : W} {log : List (ι × Op × Ret)}
    {i : ι} {op : Op} {r : Ret} (h : Legal Spec w (log ++ [(i, op, r)]) w'') :
    ∃ w', Legal Spec w log w' ∧ Spec op w' w'' r := by
  generalize hall : log ++ [(i, op, r)] = all at h
  cases h with
  | nil => exact absurd hall (List.append_ne_nil_of_right_ne_nil _ (List.cons_ne_nil _ _))
  | snoc hlegal hspec =>
    obtain ⟨rfl, hlast⟩ := List.append_inj' hall rfl
    cases hlast
    exact ⟨_, hlegal, hspec⟩

/-- The calls of one processor. -/
def own (i : ι) (log : List (ι × Op × Ret)) : List (Op × Ret) :=
  (log.filter fun c => c.1 = i).map Prod.snd

theorem own_append_self (i : ι) (log : List (ι × Op × Ret)) (c : Op × Ret) :
    own i (log ++ [(i, c)]) = own i log ++ [c] := by
  simp [own]

theorem own_append_of_ne {i j : ι} (h : j ≠ i) (log : List (ι × Op × Ret)) (c : Op × Ret) :
    own i (log ++ [(j, c)]) = own i log := by
  simp [own, h]

theorem own_unit (log : List (Unit × Op × Ret)) : own () log = log.map Prod.snd := by
  rw [own, List.filter_eq_self.mpr fun _ _ => decide_eq_true rfl]

/-- Every call of the machine takes effect in one of its steps.  Before it the call
is `Pending`, and after it the call is on its way back. -/
structure Implements (M : Machine Local Shared Op Ret) (Meets : Op → Local → Shared → Prop)
    (view : Shared → W) (Spec : Op → W → W → Ret → Prop) (Pending : Op → Local → Prop) :
    Prop where
  enter : ∀ op l, M.Enter op l → Pending op l
  result : ∀ op l, Pending op l → M.result l = none
  step : ∀ op l m l' m', Pending op l → Meets op l m → M.step l m = some (l', m') →
    (view m' = view m ∧ Pending op l') ∨
      ∃ r, Spec op (view m) (view m') r ∧ Returning M r l'

/-- It is enough to look at the instructions that access the shared state: those
in the states `Attempt`.  One that fails leads to the next attempt. -/
theorem implements_of_attempt [Nonempty Shared] {Meets : Op → Local → Shared → Prop}
    {view : Shared → W} {Spec : Op → W → W → Ret → Prop} {Attempt : Op → Local → Prop}
    (henter : ∀ op l, M.Enter op l → Reaches M (Attempt op) l)
    (hresult : ∀ op l, Attempt op l → M.result l = none)
    (hattempt : ∀ op l m l' m', Attempt op l → Meets op l m → M.step l m = some (l', m') →
      (view m' = view m ∧ Reaches M (Attempt op) l') ∨
        ∃ r, Spec op (view m) (view m') r ∧ Returning M r l') :
    Implements M Meets view Spec (fun op => Reaches M (Attempt op)) where
  enter := henter
  result op _ h := h.result_eq_none (hresult op) (Classical.arbitrary Shared)
  step op l m l' m' h hmeets hstep := by
    rcases h.step hstep with hat | ⟨rfl, hnext⟩
    · exact hattempt op l m l' m' hat hmeets hstep
    · exact Or.inl ⟨rfl, hnext⟩

/-- A call that is on its way back took effect in an earlier state of the run, in one
of its attempts. -/
theorem took_effect {Meets : Op → Local → Shared → Prop}
    {view : Shared → W} {Spec : Op → W → W → Ret → Prop} {Attempt : Op → Local → Prop}
    (henter : ∀ op l, M.Enter op l → Reaches M (Attempt op) l)
    (hattempt : ∀ op l m l' m', Attempt op l → Meets op l m → M.step l m = some (l', m') →
      (view m' = view m ∧ Reaches M (Attempt op) l') ∨
        ∃ r, Spec op (view m) (view m') r ∧ Returning M r l') {s₀ : System ι Local Shared Op Ret}
    (hs₀ : ∀ i, s₀.phase i = .idle) (hrun : M.Run Permit Meets s₀ s) {i : ι} {op : Op} {l : Local}
    (hbusy : s.phase i = .busy op l) :
    Reaches M (Attempt op) l ∨ ∃ r, Returning M r l ∧ ∃ s₁ l₁ w,
      M.Run Permit Meets s₀ s₁ ∧ M.Run Permit Meets s₁ s ∧ s₁.past i = s.past i ∧
      s₁.phase i = .busy op l₁ ∧ Attempt op l₁ ∧ Spec op (view s₁.shared) w r := by
  induction hrun generalizing op l with
  | refl => exact nomatch (hs₀ i).symm.trans hbusy
  | @next s s' j hrun hstep ih =>
    by_cases hj : j = i
    · subst hj
      cases hstep with
      | @call op' l' _ _ hcall =>
        dsimp only at hbusy
        rw [Function.update_self] at hbusy
        cases hbusy
        exact Or.inl (henter _ _ hcall)
      | @instr op' l₀ l' m' hbusy' hmeets hinstr =>
        dsimp only at hbusy
        rw [Function.update_self] at hbusy
        cases hbusy
        have hlast : M.Run Permit Meets s _ := (Run.refl s).next (.instr hbusy' hmeets hinstr)
        rcases ih hbusy' with hpending | ⟨r, hreturning, s₁, l₁, w, hto, hrest, heffect⟩
        · rcases hpending.step hinstr with hat | ⟨-, hnext⟩
          · refine (hattempt _ _ _ _ _ hat hmeets hinstr).imp And.right ?_
            rintro ⟨r, hspec, hreturning⟩
            exact ⟨r, hreturning, s, l₀, _, hrun, hlast, rfl, hbusy', hat, hspec⟩
          · exact Or.inl hnext
        · exact Or.inr ⟨r, (hreturning.step hinstr).2, s₁, l₁, w, hto, hrest.trans hlast, heffect⟩
      | ret =>
        dsimp only at hbusy
        rw [Function.update_self] at hbusy
        exact nomatch hbusy
    · rw [hstep.phase_of_ne hj] at hbusy
      refine (ih hbusy).imp id ?_
      rintro ⟨r, hreturning, s₁, l₁, w, hto, hrest, hpast, heffect⟩
      exact ⟨r, hreturning, s₁, l₁, w, hto, hrest.next hstep,
        hpast.trans (hstep.past_of_ne hj).symm, heffect⟩

section Linearizable

variable {view : Shared → W} {Spec : Op → W → W → Ret → Prop} {Pending : Op → Local → Prop}

/-- What the log has of a processor: the calls that returned, and the one that took
effect already. -/
def Tracks (M : Machine Local Shared Op Ret) (Pending : Op → Local → Prop)
    (s : System ι Local Shared Op Ret) (log : List (ι × Op × Ret)) (i : ι) : Prop :=
  match s.phase i with
  | .idle => own i log = s.past i
  | .busy op l => (Pending op l ∧ own i log = s.past i) ∨
    ∃ r, Returning M r l ∧ own i log = s.past i ++ [(op, r)]

theorem Tracks.congr {log log' : List (ι × Op × Ret)} {i : ι} (h : Tracks M Pending s log i)
    (hphase : s'.phase i = s.phase i) (hpast : s'.past i = s.past i)
    (hown : own i log' = own i log) : Tracks M Pending s' log' i := by
  unfold Tracks
  rw [hphase, hpast, hown]
  exact h

theorem Tracks.of_idle {log : List (ι × Op × Ret)} {i : ι} (hphase : s.phase i = .idle)
    (hown : own i log = s.past i) : Tracks M Pending s log i := by
  unfold Tracks
  rw [hphase]
  exact hown

theorem Tracks.of_pending {log : List (ι × Op × Ret)} {i : ι} {op : Op} {l : Local}
    (hphase : s.phase i = .busy op l) (hpending : Pending op l) (hown : own i log = s.past i) :
    Tracks M Pending s log i := by
  unfold Tracks
  rw [hphase]
  exact Or.inl ⟨hpending, hown⟩

theorem Tracks.of_returning {log : List (ι × Op × Ret)} {i : ι} {op : Op} {l : Local} {r : Ret}
    (hphase : s.phase i = .busy op l) (hreturning : Returning M r l)
    (hown : own i log = s.past i ++ [(op, r)]) : Tracks M Pending s log i := by
  unfold Tracks
  rw [hphase]
  exact Or.inr ⟨r, hreturning, hown⟩

/-- One step keeps an order of the calls, or adds the call of the step to it. -/
theorem step_tracks (himp : Implements M Meets view Spec Pending) {w : W}
    {log : List (ι × Op × Ret)} {j : ι} (hlegal : Legal Spec w log (view s.shared))
    (htracks : ∀ i, Tracks M Pending s log i) (hstep : M.Step Permit Meets s j s') :
    ∃ log', Legal Spec w log' (view s'.shared) ∧ ∀ i, Tracks M Pending s' log' i := by
  have hj := htracks j
  unfold Tracks at hj
  cases hstep with
  | @call op l hidle _ henter =>
    rw [hidle] at hj
    refine ⟨log, hlegal, fun i => ?_⟩
    by_cases hi : i = j
    · subst hi
      exact .of_pending (Function.update_self _ _ _) (himp.enter op l henter) hj
    · exact (htracks i).congr (Function.update_of_ne hi _ _) rfl rfl
  | @instr op l l' m' hbusy hmeets hinstr =>
    rw [hbusy] at hj
    -- the calls of the others are where they were
    have hother : ∀ log' : List (ι × Op × Ret), (∀ i, i ≠ j → own i log' = own i log) →
        ∀ i, i ≠ j → Tracks M Pending
          { s with phase := Function.update s.phase j (.busy op l'), shared := m' } log' i :=
      fun log' hown i hi => (htracks i).congr (Function.update_of_ne hi _ _) rfl (hown i hi)
    rcases hj with ⟨hpending, hown⟩ | ⟨r, hreturning, hown⟩
    · rcases himp.step op l s.shared l' m' hpending hmeets hinstr with
        ⟨hview, hpending'⟩ | ⟨r, hspec, hreturning⟩
      · refine ⟨log, hview ▸ hlegal, fun i => ?_⟩
        by_cases hi : i = j
        · subst hi
          exact .of_pending (Function.update_self _ _ _) hpending' hown
        · exact hother log (fun _ _ => rfl) i hi
      · refine ⟨log ++ [(j, op, r)], .snoc hlegal hspec, fun i => ?_⟩
        by_cases hi : i = j
        · subst hi
          refine .of_returning (Function.update_self _ _ _) hreturning ?_
          rw [own_append_self, hown]
        · exact hother _ (fun i hi => own_append_of_ne (Ne.symm hi) log _) i hi
    · obtain ⟨rfl, hreturning'⟩ := hreturning.step hinstr
      refine ⟨log, hlegal, fun i => ?_⟩
      by_cases hi : i = j
      · subst hi
        exact .of_returning (Function.update_self _ _ _) hreturning' hown
      · exact hother log (fun _ _ => rfl) i hi
  | @ret op l r hbusy hresult =>
    rw [hbusy] at hj
    refine ⟨log, hlegal, fun i => ?_⟩
    by_cases hi : i = j
    · subst hi
      refine .of_idle (Function.update_self _ _ _) ?_
      rcases hj with ⟨hpending, -⟩ | ⟨r', hreturning, hown⟩
      · rw [himp.result op l hpending] at hresult
        exact nomatch hresult
      · have hr : r = r' := hreturning.result_eq hresult s.shared
        subst hr
        exact hown.trans (Function.update_self i (s.past i ++ [(op, r)]) s.past).symm
    · exact (htracks i).congr (Function.update_of_ne hi _ _) (Function.update_of_ne hi _ _) rfl

/-- The calls of a run have an order in which each of them is one step of the
object, and the calls of every processor are in its own order. -/
theorem linearizable (himp : Implements M Meets view Spec Pending) {m : Shared}
    (hrun : M.Run Permit Meets (.start ι Local Op Ret m) s) :
    ∃ log, Legal Spec (view m) log (view s.shared) ∧ ∀ i, Tracks M Pending s log i := by
  refine hrun.invariant (P := fun s => ∃ log, Legal Spec (view m) log (view s.shared) ∧
    ∀ i, Tracks M Pending s log i) ?_ ⟨[], .nil _, fun _ => rfl⟩
  rintro s i s' ⟨log, hlegal, htracks⟩ hstep
  exact step_tracks himp hlegal htracks hstep

/-- The order of the calls, seen from the processors. -/
theorem Tracks.own_eq {log : List (ι × Op × Ret)} {i : ι} (h : Tracks M Pending s log i) :
    s.past i <+: own i log ∧ (s.phase i = .idle → own i log = s.past i) := by
  unfold Tracks at h
  cases hphase : s.phase i with
  | idle =>
    rw [hphase] at h
    exact ⟨h ▸ List.prefix_refl _, fun _ => h⟩
  | busy op l =>
    rw [hphase] at h
    refine ⟨?_, fun hidle => nomatch hidle⟩
    rcases h with ⟨-, hown⟩ | ⟨r, -, hown⟩
    · exact hown ▸ List.prefix_refl _
    · rw [hown]
      exact List.prefix_append _ _

end Linearizable

/-! ## Runs of one call -/

/-- `k` steps of one processor. -/
def steps (M : Machine Local Shared Op Ret) : Nat → Local → Shared → Option (Local × Shared)
  | 0, l, m => some (l, m)
  | k + 1, l, m => (M.step l m).bind fun r => M.steps k r.1 r.2

theorem steps_add_one (k : Nat) (l : Local) (m : Shared) :
    M.steps (k + 1) l m = (M.step l m).bind fun r => M.steps k r.1 r.2 := rfl

theorem steps_one {l l' : Local} {m m' : Shared} (h : M.step l m = some (l', m')) :
    M.steps 1 l m = some (l', m') := by
  rw [steps_add_one, h]
  rfl

theorem run_steps {i : ι} {op : Op} {k : Nat} {l l' : Local} {m' : Shared}
    (hbusy : s.phase i = .busy op l)
    (hmeets : ∀ j < k, ∀ l₁ m₁, M.steps j l s.shared = some (l₁, m₁) → Meets op l₁ m₁)
    (hsteps : M.steps k l s.shared = some (l', m')) :
    M.Run Permit Meets s
      { s with phase := Function.update s.phase i (.busy op l'), shared := m' } := by
  induction k generalizing s l with
  | zero =>
    obtain ⟨rfl, rfl⟩ := Prod.mk.inj (Option.some.inj hsteps)
    rw [← hbusy, Function.update_eq_self]
    exact .refl s
  | succ k ih =>
    obtain ⟨⟨l₁, m₁⟩, hfirst, hrest⟩ := Option.bind_eq_some_iff.mp hsteps
    have hrun := ih (s := { s with
      phase := Function.update s.phase i (.busy op l₁), shared := m₁ })
      (Function.update_self _ _ _)
      (fun j hj l₂ m₂ h => hmeets (j + 1) (by omega) l₂ m₂ (by rw [steps_add_one, hfirst]; exact h)) hrest
    dsimp only at hrun
    rw [Function.update_idem] at hrun
    exact (Run.refl s |>.next (.instr hbusy (hmeets 0 (by omega) l s.shared rfl) hfirst)).trans
      hrun

theorem steps_add {j k : Nat} {l l' : Local} {m m' : Shared}
    (h : M.steps j l m = some (l', m')) : M.steps (j + k) l m = M.steps k l' m' := by
  induction j generalizing l m with
  | zero =>
    obtain ⟨rfl, rfl⟩ := Prod.mk.inj (Option.some.inj h)
    rw [Nat.zero_add]
  | succ j ih =>
    obtain ⟨⟨l₁, m₁⟩, hfirst, hrest⟩ := Option.bind_eq_some_iff.mp h
    rw [Nat.succ_add, steps_add_one, hfirst]
    exact ih hrest

theorem steps_none {j k : Nat} {l : Local} {m : Shared} (h : M.steps k l m = none) :
    M.steps (k + j) l m = none := by
  induction k generalizing l m with
  | zero => exact nomatch h
  | succ k ih =>
    rw [Nat.succ_add, steps_add_one]
    rw [steps_add_one] at h
    cases hstep : M.step l m with
    | none => rfl
    | some r =>
      rw [hstep] at h
      exact ih h

theorem steps_succ {k : Nat} {l l' : Local} {m m' : Shared}
    (h : M.steps k l m = some (l', m')) : M.steps (k + 1) l m = M.step l' m' := by
  rw [steps_add h, steps_add_one]
  cases M.step l' m' <;> rfl

/-- A processor that runs alone gets to a state of `T`. -/
theorem Reaches.steps {T : Local → Prop} {l : Local} (h : Reaches M T l) (m : Shared) :
    ∃ k l', M.steps k l m = some (l', m) ∧ T l' := by
  induction h with
  | here h => exact ⟨0, _, rfl, h⟩
  | next f hstep _ ih =>
    obtain ⟨k, l', hsteps, hT⟩ := ih m
    refine ⟨k + 1, l', ?_, hT⟩
    rw [steps_add_one, hstep m]
    exact hsteps

/-- A processor that runs alone ends in one state. -/
theorem steps_unique {j k : Nat} {l l' l'' : Local} {m m' m'' : Shared}
    (h : M.steps j l m = some (l', m')) (hend : M.step l' m' = none)
    (h' : M.steps k l m = some (l'', m'')) (hend' : M.step l'' m'' = none) :
    l' = l'' ∧ m' = m'' := by
  induction j generalizing k l m with
  | zero =>
    obtain ⟨rfl, rfl⟩ := Prod.mk.inj (Option.some.inj h)
    cases k with
    | zero => exact Prod.mk.inj (Option.some.inj h')
    | succ k =>
      rw [steps_add_one, hend] at h'
      exact nomatch h'
  | succ j ih =>
    obtain ⟨⟨l₁, m₁⟩, hfirst, hrest⟩ := Option.bind_eq_some_iff.mp h
    cases k with
    | zero =>
      obtain ⟨rfl, rfl⟩ := Prod.mk.inj (Option.some.inj h')
      exact nomatch hend'.symm.trans hfirst
    | succ k =>
      rw [steps_add_one, hfirst] at h'
      exact ih hrest h'

/-! ## Calls that take effect in one step -/

/-- Whatever the other processors do, the call does `F` to the shared state in one of its
steps and then returns. -/
def Acts (M : Machine Local Shared Op Ret) (F : Shared → Shared × Ret) (l : Local) : Prop :=
  Reaches M (fun l => ∀ m, ∃ l', M.step l m = some (l', (F m).1) ∧ Returning M (F m).2 l') l

section Acts

variable {F F' : Shared → Shared × Ret} {l l' : Local} {r : Ret}

theorem Acts.steps (h : Acts M F l) (m : Shared) :
    ∃ k l', M.steps k l m = some (l', (F m).1) ∧ M.result l' = some (F m).2 := by
  obtain ⟨j, l₁, hto, hact⟩ := Reaches.steps h m
  obtain ⟨l₂, hstep, hback⟩ := hact m
  obtain ⟨k, l', hrest, hresult⟩ := Reaches.steps hback (F m).1
  refine ⟨j + (1 + k), l', ?_, hresult⟩
  rw [steps_add hto, steps_add (steps_one hstep), hrest]

/-- What a call does is determined. -/
theorem Acts.unique (h : Acts M F l) (h' : Acts M F' l) : F = F' := by
  funext m
  obtain ⟨j, l', hsteps, hresult⟩ := h.steps m
  obtain ⟨k, l'', hsteps', hresult'⟩ := h'.steps m
  obtain ⟨rfl, hshared⟩ := steps_unique hsteps (M.step_of_result _ _ _ hresult) hsteps'
    (M.step_of_result _ _ _ hresult')
  exact Prod.ext hshared (Option.some.inj (hresult.symm.trans hresult'))

/-- A call that ends with the shared state as it was does nothing to it. -/
theorem Acts.eq_of_reaches (h : Acts M F l)
    (hend : Reaches M (fun l => ∀ m, M.step l m = none) l) (m : Shared) : (F m).1 = m := by
  obtain ⟨j, l', hsteps, hresult⟩ := h.steps m
  obtain ⟨k, l'', hsteps', hnone⟩ := Reaches.steps hend m
  exact (steps_unique hsteps (M.step_of_result _ _ _ hresult) hsteps' (hnone m)).2

end Acts

/-- The call at `l` returns when its processor runs alone. -/
def ReturnsAlone (M : Machine Local Shared Op Ret) (l : Local) (m : Shared) : Prop :=
  ∃ k l' m' r, M.steps k l m = some (l', m') ∧ M.result l' = some r

theorem Returning.returnsAlone {r : Ret} {l : Local} (h : Returning M r l) (m : Shared) :
    ReturnsAlone M l m := by
  obtain ⟨k, l', hsteps, hresult⟩ := Reaches.steps h m
  exact ⟨k, l', m, r, hsteps, hresult⟩

theorem ReturnsAlone.of_steps {j : Nat} {l l' : Local} {m m' : Shared}
    (hsteps : M.steps j l m = some (l', m')) (h : ReturnsAlone M l' m') : ReturnsAlone M l m := by
  obtain ⟨k, l'', m'', r, hrest, hresult⟩ := h
  exact ⟨j + k, l'', m'', r, (steps_add hsteps).trans hrest, hresult⟩

/-- A run from `s` in which the other processors leave the shared state as it is, and
the processor `i` executes `k` instructions. -/
inductive Quiet (M : Machine Local Shared Op Ret) (Permit : List (Op × Ret) → Op → Prop) (i : ι) :
    System ι Local Shared Op Ret → Nat → System ι Local Shared Op Ret → Prop
  | refl (s : System ι Local Shared Op Ret) : Quiet M Permit i s 0 s
  | own {s s' : System ι Local Shared Op Ret} {k op l l' m'} (h : Quiet M Permit i s k s') (hbusy : s'.phase i = .busy op l)
      (hstep : M.step l s'.shared = some (l', m')) :
      Quiet M Permit i s (k + 1)
        { s' with phase := Function.update s'.phase i (.busy op l'), shared := m' }
  | other {s s' s'' : System ι Local Shared Op Ret} {k j} (h : Quiet M Permit i s k s') (hj : j ≠ i)
      (hstep : M.Step Permit (fun _ _ _ => True) s' j s'') (hshared : s''.shared = s'.shared) :
      Quiet M Permit i s k s''

/-- The processor does what it does alone. -/
theorem Quiet.steps {i : ι} {k : Nat} {op : Op} {l : Local} (h : Quiet M Permit i s k s')
    (hbusy : s.phase i = .busy op l) :
    ∃ l', s'.phase i = .busy op l' ∧ M.steps k l s.shared = some (l', s'.shared) := by
  induction h with
  | refl => exact ⟨l, hbusy, rfl⟩
  | @own k s' op' l₁ l₂ m' _ hbusy' hstep ih =>
    obtain ⟨l', hphase, hsteps⟩ := ih
    rw [hphase] at hbusy'
    injection hbusy' with hop hl
    subst hop hl
    refine ⟨l₂, Function.update_self _ _ _, (steps_add hsteps).trans ?_⟩
    rw [Machine.steps, hstep]
    rfl
  | other _ hj hstep hshared ih =>
    obtain ⟨l', hphase, hsteps⟩ := ih
    exact ⟨l', (hstep.phase_of_ne hj).trans hphase, by rw [hshared, hsteps]⟩

/-- While the other processors leave the shared state as it is, the call of `i` has a
next instruction, up to a number of them after which it is back in its caller. -/
def Terminates (M : Machine Local Shared Op Ret) (Permit : List (Op × Ret) → Op → Prop) (i : ι)
    (s : System ι Local Shared Op Ret) : Prop :=
  ∃ n, ∀ k s', Quiet M Permit i s k s' → k ≤ n ∧ ∃ op l, s'.phase i = .busy op l ∧
    (k < n → (M.step l s'.shared).isSome) ∧ (k = n → (M.result l).isSome)

theorem terminates_of_returnsAlone {i : ι} {op : Op} {l : Local} (hbusy : s.phase i = .busy op l)
    (h : ReturnsAlone M l s.shared) : Terminates M Permit i s := by
  obtain ⟨n, l', m', r, hsteps, hresult⟩ := h
  refine ⟨n, fun k s' hquiet => ?_⟩
  obtain ⟨l₁, hphase, hsteps₁⟩ := hquiet.steps hbusy
  have hle : k ≤ n := by
    by_contra hlt
    obtain ⟨j, rfl⟩ : ∃ j, k = n + (j + 1) := ⟨k - n - 1, by omega⟩
    rw [steps_add hsteps, Machine.steps, M.step_of_result l' r m' hresult] at hsteps₁
    exact nomatch hsteps₁
  refine ⟨hle, op, l₁, hphase, fun hlt => ?_, fun heq => ?_⟩
  · obtain ⟨j, rfl⟩ : ∃ j, n = k + (j + 1) := ⟨n - k - 1, by omega⟩
    rw [steps_add hsteps₁, Machine.steps] at hsteps
    obtain ⟨r', hstep, -⟩ := Option.bind_eq_some_iff.mp hsteps
    rw [hstep]
    rfl
  · subst heq
    rw [hsteps] at hsteps₁
    obtain ⟨rfl, -⟩ := Prod.mk.inj (Option.some.inj hsteps₁)
    rw [hresult]
    rfl

/-- The steps of one processor are such a run. -/
theorem quiet_of_steps {i : ι} {op : Op} {k : Nat} {l l' : Local} {m' : Shared}
    (hbusy : s.phase i = .busy op l) (hsteps : M.steps k l s.shared = some (l', m')) :
    Quiet M Permit i s k
      { s with phase := Function.update s.phase i (.busy op l'), shared := m' } := by
  induction k generalizing l' m' with
  | zero =>
    obtain ⟨rfl, rfl⟩ := Prod.mk.inj (Option.some.inj hsteps)
    rw [← hbusy, Function.update_eq_self]
    exact .refl s
  | succ k ih =>
    cases hfirst : M.steps k l s.shared with
    | none =>
      have hnone := steps_none (j := 1) hfirst
      rw [hsteps] at hnone
      exact nomatch hnone
    | some r =>
      obtain ⟨l₁, m₁⟩ := r
      rw [steps_succ hfirst] at hsteps
      have hlast := (ih hfirst).own (Function.update_self _ _ _) hsteps
      rwa [Function.update_idem] at hlast

/-! ## Calls that never return -/

/-- The call has no next instruction and is not back in its caller. -/
def Stuck (M : Machine Local Shared Op Ret) (l : Local) : Prop :=
  M.result l = none ∧ ∀ m, M.step l m = none

/-- When every call gets stuck, none returns. -/
theorem never_returns (henter : ∀ op l, M.Enter op l → Reaches M (Stuck M) l) {m : Shared}
    (hrun : M.Run Permit Meets (.start ι Local Op Ret m) s) (i : ι) :
    s.past i = [] ∧ ∀ op l, s.phase i = .busy op l → Reaches M (Stuck M) l := by
  refine hrun.invariant (P := fun s => ∀ i, s.past i = [] ∧
    ∀ op l, s.phase i = .busy op l → Reaches M (Stuck M) l) ?_
    (fun i => ⟨rfl, fun _ _ h => nomatch h⟩) i
  intro s j s' hs hstep i
  by_cases hi : i = j
  · subst hi
    cases hstep with
    | @call op l _ _ hcall =>
      refine ⟨(hs i).1, fun op' l' hphase => ?_⟩
      dsimp only at hphase
      rw [Function.update_self] at hphase
      cases hphase
      exact henter op l hcall
    | @instr op l l₁ m₁ hbusy _ hinstr =>
      refine ⟨(hs i).1, fun op' l' hphase => ?_⟩
      dsimp only at hphase
      rw [Function.update_self] at hphase
      cases hphase
      rcases ((hs i).2 op l hbusy).step hinstr with hstuck | ⟨-, hnext⟩
      · rw [hstuck.2] at hinstr
        exact nomatch hinstr
      · exact hnext
    | @ret op l r hbusy hresult =>
      rw [((hs i).2 op l hbusy).result_eq_none (fun _ h => h.1) s.shared] at hresult
      exact nomatch hresult
  · refine ⟨(hstep.past_of_ne (Ne.symm hi)).trans (hs i).1, fun op l hphase => ?_⟩
    rw [hstep.phase_of_ne (Ne.symm hi)] at hphase
    exact (hs i).2 op l hphase

theorem not_terminates {i : ι} {op : Op} {l : Local} (hbusy : s.phase i = .busy op l)
    (h : Reaches M (Stuck M) l) : ¬ Terminates M Permit i s := by
  rintro ⟨n, hn⟩
  obtain ⟨k, l', hsteps, hresult, hstep⟩ := h.steps s.shared
  obtain ⟨hle, op', l₁, hphase, hnext, hlast⟩ := hn k _ (quiet_of_steps hbusy hsteps)
  dsimp only at hphase
  rw [Function.update_self] at hphase
  cases hphase
  rcases Nat.lt_or_eq_of_le hle with hlt | heq
  · have hsome := hnext hlt
    rw [hstep] at hsome
    exact nomatch hsome
  · have hsome := hlast heq
    rw [hresult] at hsome
    exact nomatch hsome

/-- A call from the start to its return. -/
theorem run_call {i : ι} {op : Op} {k : Nat} {l l' : Local} {m' : Shared} {r : Ret}
    (hidle : s.phase i = .idle) (hpermit : Permit (s.past i) op) (henter : M.Enter op l)
    (hmeets : ∀ j < k, ∀ l₁ m₁, M.steps j l s.shared = some (l₁, m₁) → Meets op l₁ m₁)
    (hsteps : M.steps k l s.shared = some (l', m')) (hresult : M.result l' = some r) :
    M.Run Permit Meets s
      { phase := s.phase
        past := Function.update s.past i (s.past i ++ [(op, r)])
        shared := m' } := by
  have hcall : M.Step Permit Meets s i
      { s with phase := Function.update s.phase i (.busy op l) } := .call hidle hpermit henter
  have hbusy : (Function.update s.phase i (.busy op l)) i = .busy op l := Function.update_self _ _ _
  have hrun := ((Run.refl s).next hcall).trans (run_steps hbusy hmeets hsteps)
  have hret := hrun.next (.ret (Function.update_self _ _ _) hresult)
  dsimp only at hret
  rw [Function.update_idem, Function.update_idem, ← hidle, Function.update_eq_self] at hret
  exact hret

end Machine

end Lib.Interleave
