import Mathlib.Logic.Relation
import Mathlib.Tactic.Basic
import Mathlib.Order.Basic

/-!
# Loops

Three kinds of loop, each with the rules that its users need.

* `forLoop body n` is a counted loop.  It always ends, and `forLoop_inv` is its
  invariant rule.  `forBreak` is the same loop with a test in front of the body
  that leaves it.
* `whileLoop cond body fuel` is a loop whose rounds are bounded by a measure the
  code itself counts down.  `whileLoop_spec` is its invariant rule.
* `runFor step fuel` iterates a step function that either continues with a new
  state (`Sum.inl`) or ends with a result (`Sum.inr`).  `Returns step s r` says
  that some fuel reaches the result `r`.  A loop that may diverge is modelled
  this way, so "it terminates" is a statement to prove and not a side effect of
  the model.

`returns_of_variant` is the total-correctness rule: an invariant, and a measure
that every continuing step lowers.  `not_returns_of_invariant` is its opposite:
an invariant under which every step continues.  `Visits step s s'` says that the
iteration comes through `s'`, and `Always step P s` that `P` holds all the way.
-/

namespace Lib

variable {σ ρ : Type}

/-! ## Counted loops -/

/-- `for (i = 0; i < n; i++) body(i)`. -/
def forLoop (body : Nat → σ → σ) : Nat → σ → σ
  | 0, s => s
  | n + 1, s => body n (forLoop body n s)

@[simp]
theorem forLoop_zero (body : Nat → σ → σ) (s : σ) : forLoop body 0 s = s := rfl

theorem forLoop_succ (body : Nat → σ → σ) (n : Nat) (s : σ) :
    forLoop body (n + 1) s = body n (forLoop body n s) := rfl

/-- The invariant rule of the counted loop.  `P k` holds before the round `k`. -/
theorem forLoop_inv (body : Nat → σ → σ) (n : Nat) (s : σ) (P : Nat → σ → Prop)
    (hinit : P 0 s) (hstep : ∀ k t, k < n → P k t → P (k + 1) (body k t)) :
    P n (forLoop body n s) := by
  induction n with
  | zero => exact hinit
  | succ n ih =>
    rw [forLoop_succ]
    apply hstep n _ (Nat.lt_succ_self n)
    exact ih (fun k t hk => hstep k t (Nat.lt_succ_of_lt hk))

/-- Two counted loops whose rounds keep a relation. -/
theorem forLoop_rel {τ : Type} {body : Nat → σ → σ} {body' : Nat → τ → τ} {s : σ} {t : τ} (n : Nat)
    (R : σ → τ → Prop) (hinit : R s t)
    (hstep : ∀ k s t, R s t → R (body k s) (body' k t)) :
    R (forLoop body n s) (forLoop body' n t) := by
  induction n with
  | zero => exact hinit
  | succ n ih => exact hstep n _ _ ih

/-- `for (i = start; i < start + n; i++) { if (stop(i)) break; body(i) }`. -/
def forBreak (stop : Nat → Bool) (body : Nat → σ → σ) : Nat → Nat → σ → σ
  | _, 0, s => s
  | i, n + 1, s => if stop i then s else forBreak stop body (i + 1) n (body i s)

/-- Rounds that pass the test are rounds of the counted loop. -/
theorem forBreak_eq_forLoop {stop : Nat → Bool} {body : Nat → σ → σ} {n : Nat} (s : σ)
    (h : ∀ i, i < n → stop i = false) :
    forBreak stop body 0 n s = forLoop body n s := by
  have hgen : ∀ k i t, (∀ j, i ≤ j → j < i + k → stop j = false) →
      forBreak stop body i (k + 1) t
        = if stop (i + k) then forBreak stop body i k t
          else body (i + k) (forBreak stop body i k t) := by
    intro k
    induction k with
    | zero =>
      intro i t _
      simp only [forBreak, Nat.add_zero]
    | succ k ih =>
      intro i t hstop
      have hi : stop i = false := hstop i (Nat.le_refl i) (by omega)
      rw [forBreak, hi, if_neg Bool.false_ne_true, ih (i + 1) (body i t)
        (fun j h1 h2 => hstop j (by omega) (by omega))]
      rw [show i + 1 + k = i + (k + 1) by omega]
      rw [forBreak, hi, if_neg Bool.false_ne_true]
  induction n with
  | zero => rfl
  | succ n ih =>
    rw [hgen n 0 s (fun j _ hj => h j (by omega)), Nat.zero_add, h n (Nat.lt_succ_self n),
      if_neg Bool.false_ne_true, forLoop_succ, ih (fun i hi => h i (by omega))]

/-- A round that stops at `k` makes the loop the first `k` rounds. -/
theorem forBreak_of_stop {stop : Nat → Bool} {body : Nat → σ → σ} {n k : Nat} (s : σ)
    (hk : k ≤ n) (h : ∀ i, i < k → stop i = false) (hstop : k < n → stop k = true) :
    forBreak stop body 0 n s = forLoop body k s := by
  have hsplit : ∀ d i t, i + d = k → (∀ j, i ≤ j → j < k → stop j = false) →
      forBreak stop body i (n - i) t = forBreak stop body i d t := by
    intro d
    induction d with
    | zero =>
      intro i t hi _
      have hik : i = k := by omega
      subst hik
      rcases Nat.lt_or_ge i n with hlt | hge
      · rw [show n - i = (n - i - 1) + 1 by omega]
        simp only [forBreak, hstop hlt, if_true]
      · rw [show n - i = 0 by omega]
    | succ d ih =>
      intro i t hi hpass
      have hip : stop i = false := hpass i (Nat.le_refl i) (by omega)
      rw [show n - i = (n - (i + 1)) + 1 by omega, forBreak, forBreak, hip,
        if_neg Bool.false_ne_true, if_neg Bool.false_ne_true,
        ih (i + 1) (body i t) (by omega) (fun j h1 h2 => hpass j (by omega) h2)]
  have h0 := hsplit k 0 s (by omega) (fun j _ hj => h j hj)
  rw [Nat.sub_zero] at h0
  rw [h0]
  exact forBreak_eq_forLoop s h

/-! ## Loops with a bound on their rounds -/

/-- `while (cond) body`, for at most `fuel` rounds. -/
def whileLoop (cond : σ → Bool) (body : σ → σ) : Nat → σ → σ
  | 0, s => s
  | fuel + 1, s => if cond s then whileLoop cond body fuel (body s) else s

/-- The invariant rule.  The fuel covers a measure that every round lowers, so
the loop has ended by its own test. -/
theorem whileLoop_spec (cond : σ → Bool) (body : σ → σ) (I : σ → Prop) (μ : σ → Nat)
    {fuel : Nat} {s : σ} (hfuel : μ s ≤ fuel) (hinit : I s)
    (hstep : ∀ t, I t → cond t = true → I (body t) ∧ μ (body t) < μ t) :
    I (whileLoop cond body fuel s) ∧ cond (whileLoop cond body fuel s) = false := by
  induction fuel generalizing s with
  | zero =>
    refine ⟨hinit, ?_⟩
    cases hc : cond s with
    | false => exact hc
    | true =>
      have hlt := (hstep s hinit hc).2
      omega
  | succ fuel ih =>
    rw [whileLoop]
    by_cases hc : cond s = true
    · rw [if_pos hc]
      obtain ⟨hI, hlt⟩ := hstep s hinit hc
      exact ih (by omega) hI
    · rw [if_neg hc]
      exact ⟨hinit, Bool.eq_false_iff.mpr hc⟩

/-! ## Loops that may diverge -/

/-- Iterate `step` until it ends or the fuel is spent. -/
def runFor (step : σ → σ ⊕ ρ) : Nat → σ → Option ρ
  | 0, _ => none
  | fuel + 1, s =>
    match step s with
    | .inl s' => runFor step fuel s'
    | .inr r => some r

section

variable {step : σ → σ ⊕ ρ} {s s' : σ} {r : ρ}

theorem runFor_inl (h : step s = .inl s') (fuel : Nat) :
    runFor step (fuel + 1) s = runFor step fuel s' := by
  rw [runFor, h]

theorem runFor_inr (h : step s = .inr r) (fuel : Nat) : runFor step (fuel + 1) s = some r := by
  rw [runFor, h]

end

/-- The iteration of `step` from `s` ends, with the result `r`. -/
def Returns (step : σ → σ ⊕ ρ) (s : σ) (r : ρ) : Prop :=
  ∃ fuel, runFor step fuel s = some r

section Returns

variable {step : σ → σ ⊕ ρ} {s s' : σ} {r r' : ρ}

theorem Returns.done (h : step s = .inr r) : Returns step s r :=
  ⟨1, runFor_inr h 0⟩

theorem Returns.next (h : step s = .inl s') (hr : Returns step s' r) : Returns step s r := by
  obtain ⟨fuel, hfuel⟩ := hr
  exact ⟨fuel + 1, (runFor_inl h fuel).trans hfuel⟩

/-- A continuing step does not change the result. -/
theorem returns_iff_of_step (h : step s = .inl s') : Returns step s r ↔ Returns step s' r := by
  constructor
  · rintro ⟨fuel, hfuel⟩
    cases fuel with
    | zero => cases hfuel
    | succ fuel =>
      rw [runFor_inl h] at hfuel
      exact ⟨fuel, hfuel⟩
  · exact Returns.next h

theorem returns_iff_of_done (h : step s = .inr r) : Returns step s r' ↔ r' = r := by
  constructor
  · rintro ⟨fuel, hfuel⟩
    cases fuel with
    | zero => cases hfuel
    | succ fuel =>
      rw [runFor_inr h] at hfuel
      exact (Option.some.inj hfuel).symm
  · rintro rfl
    exact Returns.done h

/-- The result does not depend on the fuel. -/
theorem Returns.unique (h : Returns step s r) (h' : Returns step s r') : r = r' := by
  obtain ⟨fuel, hfuel⟩ := h
  induction fuel generalizing s with
  | zero => cases hfuel
  | succ fuel ih =>
    cases hs : step s with
    | inl t =>
      rw [runFor_inl hs] at hfuel
      exact ih ((returns_iff_of_step hs).mp h') hfuel
    | inr t =>
      rw [runFor_inr hs] at hfuel
      rw [(returns_iff_of_done hs).mp h']
      exact (Option.some.inj hfuel).symm

/-- The total-correctness rule.  A step that continues keeps the invariant and
lowers the measure, and a step that ends has the postcondition. -/
theorem returns_of_variant (I : σ → Prop) (μ : σ → Nat) (Q : ρ → Prop)
    (hstep : ∀ t, I t → (∃ r, step t = .inr r ∧ Q r) ∨
      (∃ t', step t = .inl t' ∧ I t' ∧ μ t' < μ t))
    (h : I s) : ∃ r, Returns step s r ∧ Q r := by
  suffices key : ∀ n t, μ t < n → I t → ∃ r, Returns step t r ∧ Q r by
    exact key (μ s + 1) s (Nat.lt_succ_self _) h
  intro n
  induction n with
  | zero => intro t hμ _; omega
  | succ n ih =>
    intro t hμ ht
    rcases hstep t ht with ⟨r, hr, hQ⟩ | ⟨t', ht', hI, hlt⟩
    · exact ⟨r, Returns.done hr, hQ⟩
    · obtain ⟨r, hr, hQ⟩ := ih t' (by omega) hI
      exact ⟨r, hr.next ht', hQ⟩

/-- A loop whose every step continues never ends. -/
theorem not_returns_of_invariant (I : σ → Prop)
    (hstep : ∀ t, I t → ∃ t', step t = .inl t' ∧ I t') (h : I s) : ¬ Returns step s r := by
  rintro ⟨fuel, hfuel⟩
  induction fuel generalizing s with
  | zero => cases hfuel
  | succ fuel ih =>
    obtain ⟨t', ht', hI⟩ := hstep s h
    rw [runFor_inl ht'] at hfuel
    exact ih hI hfuel

end Returns

/-- The iteration of `step` from `s` comes through `s'`. -/
def Visits (step : σ → σ ⊕ ρ) : σ → σ → Prop :=
  Relation.ReflTransGen fun t t' => step t = .inl t'

/-- The property holds of every state that the iteration comes through. -/
def Always (step : σ → σ ⊕ ρ) (P : σ → Prop) (s : σ) : Prop := ∀ t, Visits step s t → P t

section Visits

variable {step : σ → σ ⊕ ρ} {P : σ → Prop} {s s' t : σ} {r : ρ}

theorem visits_iff_of_step (h : step s = .inl s') : Visits step s t ↔ t = s ∨ Visits step s' t := by
  constructor
  · intro hv
    rcases Relation.ReflTransGen.cases_head hv with rfl | ⟨u, hu, hut⟩
    · exact Or.inl rfl
    · rw [h] at hu
      rw [Sum.inl.inj hu]
      exact Or.inr hut
  · rintro (rfl | hv)
    · exact Relation.ReflTransGen.refl
    · exact Relation.ReflTransGen.head h hv

theorem visits_iff_of_done (h : step s = .inr r) : Visits step s t ↔ t = s := by
  constructor
  · intro hv
    rcases Relation.ReflTransGen.cases_head hv with rfl | ⟨u, hu, _⟩
    · rfl
    · rw [h] at hu
      cases hu
  · rintro rfl
    exact Relation.ReflTransGen.refl

/-- The result is that of any state on the way. -/
theorem Visits.returns_iff (h : Visits step s s') : Returns step s r ↔ Returns step s' r := by
  induction h with
  | refl => rfl
  | tail _ hstep ih => rw [ih, returns_iff_of_step hstep]

/-- An iteration that ends visits a state whose step ends it. -/
theorem Returns.visits (h : Returns step s r) : ∃ t, Visits step s t ∧ step t = .inr r := by
  obtain ⟨fuel, hfuel⟩ := h
  induction fuel generalizing s with
  | zero => cases hfuel
  | succ fuel ih =>
    cases hs : step s with
    | inl s' =>
      rw [runFor_inl hs] at hfuel
      obtain ⟨t, hv, ht⟩ := ih hfuel
      exact ⟨t, Relation.ReflTransGen.head hs hv, ht⟩
    | inr r' =>
      rw [runFor_inr hs] at hfuel
      exact ⟨s, Relation.ReflTransGen.refl, hs.trans (congrArg Sum.inr (Option.some.inj hfuel))⟩

/-- Two iterations whose steps agree up to a map of the states and one of the results. -/
theorem returns_map_iff {σ' ρ' : Type} {step' : σ' → σ' ⊕ ρ'} {f : σ → σ'} {g : ρ → ρ'}
    (h : ∀ t, step' (f t) = (step t).map f g) {r' : ρ'} :
    Returns step' (f s) r' ↔ ∃ r, Returns step s r ∧ r' = g r := by
  constructor
  · rintro ⟨fuel, hfuel⟩
    induction fuel generalizing s with
    | zero => cases hfuel
    | succ fuel ih =>
      cases hs : step s with
      | inl t =>
        have hs' : step' (f s) = .inl (f t) := by rw [h, hs]; rfl
        rw [runFor_inl hs'] at hfuel
        obtain ⟨r, hr, heq⟩ := ih hfuel
        exact ⟨r, hr.next hs, heq⟩
      | inr r =>
        have hs' : step' (f s) = .inr (g r) := by rw [h, hs]; rfl
        rw [runFor_inr hs'] at hfuel
        exact ⟨r, Returns.done hs, (Option.some.inj hfuel).symm⟩
  · rintro ⟨r, ⟨fuel, hfuel⟩, rfl⟩
    induction fuel generalizing s with
    | zero => cases hfuel
    | succ fuel ih =>
      cases hs : step s with
      | inl t =>
        rw [runFor_inl hs] at hfuel
        exact (ih hfuel).next (by rw [h, hs]; rfl)
      | inr t =>
        rw [runFor_inr hs] at hfuel
        rw [← Option.some.inj hfuel]
        exact Returns.done (by rw [h, hs]; rfl)

theorem always_iff_of_step (h : step s = .inl s') : Always step P s ↔ P s ∧ Always step P s' := by
  unfold Always
  simp only [visits_iff_of_step h, forall_eq_or_imp]

theorem always_iff_of_done (h : step s = .inr r) : Always step P s ↔ P s := by
  unfold Always
  simp only [visits_iff_of_done h, forall_eq]

/-- The invariant rule of the iteration. -/
theorem always_of_invariant (I : σ → Prop) (hP : ∀ t, I t → P t)
    (hstep : ∀ t t', I t → step t = .inl t' → I t') (h : I s) : Always step P s := by
  intro t hv
  refine hP t ?_
  induction hv with
  | refl => exact h
  | tail _ hs ih => exact hstep _ _ ih hs

end Visits

end Lib
