import Xeos.Lib.Interleave

/-!
# Locks

The object that a lock is, and what holds when processors use one.  The lock has
the value `free` or the value `held`; a processor that took it is inside until it
gives it back, which it does only when it is inside.

`Uses.one_holder` is about the calls one after the other, and `exclusive` about the
runs of a machine: the calls of a run have an order, so it follows from the first.
-/

namespace Lib.Interleave.Mutex

variable {ι Local Shared W : Type}

inductive Op
  | lock | tryLock | unlock
deriving DecidableEq, Repr

/-- A call after which its processor is inside, if it was not before. -/
def takes : Op → Bool → Bool
  | .lock, _ => true
  | .tryLock, r => r
  | .unlock, _ => false

/-- Whether a processor is inside after one more call. -/
def after (inside : Bool) : Op × Bool → Bool
  | (.unlock, _) => false
  | (op, r) => inside || takes op r

/-- Whether a processor is inside after its calls. -/
def inside (past : List (Op × Bool)) : Bool := past.foldl after false

@[simp] theorem inside_append (past : List (Op × Bool)) (c : Op × Bool) :
    inside (past ++ [c]) = after (inside past) c := by
  rw [inside, List.foldl_append]
  rfl

/-- A processor unlocks only when it is inside. -/
def Permit (past : List (Op × Bool)) (op : Op) : Prop := op = .unlock → inside past = true

/-- What the calls do to the lock. -/
def Spec (free held : W) : Op → W → W → Bool → Prop
  | .lock, w, w', r => w = free ∧ w' = held ∧ r = true
  | .tryLock, w, w', r => (w = free ∧ w' = held ∧ r = true) ∨ (w ≠ free ∧ w' = w ∧ r = false)
  | .unlock, _, w', _ => w' = free

/-! ## One call after the other -/

/-- A list of calls in which the processor unlocks only when it is inside. -/
inductive Uses : List (Op × Bool) → Prop
  | nil : Uses []
  | snoc {past op r} (h : Uses past) (hpermit : Permit past op) : Uses (past ++ [(op, r)])

theorem Uses.init {past : List (Op × Bool)} {op : Op} {r : Bool} (h : Uses (past ++ [(op, r)])) :
    Uses past ∧ Permit past op := by
  generalize hall : past ++ [(op, r)] = all at h
  cases h with
  | nil => exact absurd hall (List.append_ne_nil_of_right_ne_nil _ (List.cons_ne_nil _ _))
  | snoc h hpermit =>
    obtain ⟨rfl, hlast⟩ := List.append_inj' hall rfl
    cases hlast
    exact ⟨h, hpermit⟩

variable [DecidableEq ι] {free held : W}

/-- The lock is free and nobody is inside, or it is held and one processor is. -/
def Holder (free held w : W) (log : List (ι × Op × Bool)) : Prop :=
  (w = free ∧ ∀ i, inside (Machine.own i log) = false) ∨
    (w = held ∧ ∃ i, ∀ j, inside (Machine.own j log) = true ↔ j = i)

theorem inside_own_append (i j : ι) (log : List (ι × Op × Bool)) (c : Op × Bool) :
    inside (Machine.own j (log ++ [(i, c)]))
      = if j = i then after (inside (Machine.own i log)) c else inside (Machine.own j log) := by
  by_cases hj : j = i
  · subst hj
    rw [Machine.own_append_self, inside_append, if_pos rfl]
  · rw [Machine.own_append_of_ne (Ne.symm hj), if_neg hj]

/-- A call of the processor `i` that takes the lock. -/
theorem Holder.take {w : W} {log : List (ι × Op × Bool)} {i : ι} {op : Op} {r : Bool}
    (hne : held ≠ free) (h : Holder free held w log) (hw : w = free)
    (hafter : after (inside (Machine.own i log)) (op, r) = true) :
    Holder free held held (log ++ [(i, op, r)]) := by
  rcases h with ⟨-, hout⟩ | ⟨hheld, -⟩
  · refine Or.inr ⟨rfl, i, fun j => ?_⟩
    rw [inside_own_append, hafter]
    by_cases hj : j = i
    · rw [if_pos hj]
      exact ⟨fun _ => hj, fun _ => rfl⟩
    · rw [if_neg hj, hout j]
      exact ⟨fun h => absurd h Bool.false_ne_true, fun h => absurd h hj⟩
  · exact absurd (hheld.symm.trans hw) hne

/-- The rule for a lock: what its calls do, one after the other, lets at most one
processor in. -/
theorem Uses.one_holder (hne : held ≠ free) {log : List (ι × Op × Bool)} {w₀ w : W}
    (h : Machine.Legal (Spec free held) w₀ log w) (hw₀ : w₀ = free)
    (huses : ∀ i, Uses (Machine.own i log)) : Holder free held w log := by
  induction h with
  | nil => exact Or.inl ⟨hw₀, fun _ => rfl⟩
  | @snoc w' w'' log i op r _ hspec ih =>
    have hlast := huses i
    rw [Machine.own_append_self] at hlast
    have hbefore : Holder free held w' log := by
      refine ih (fun j => ?_)
      by_cases hj : j = i
      · subst hj
        exact hlast.init.1
      · have huse := huses j
        rwa [Machine.own_append_of_ne (Ne.symm hj)] at huse
    cases op with
    | lock =>
      obtain ⟨hw', rfl, rfl⟩ := hspec
      exact hbefore.take hne hw' (Bool.or_true _)
    | tryLock =>
      rcases hspec with ⟨hw', rfl, rfl⟩ | ⟨-, rfl, rfl⟩
      · exact hbefore.take hne hw' (Bool.or_true _)
      · have hsame : ∀ j, inside (Machine.own j (log ++ [(i, Op.tryLock, false)]))
            = inside (Machine.own j log) := by
          intro j
          rw [inside_own_append]
          by_cases hj : j = i
          · subst hj
            exact (if_pos rfl).trans (Bool.or_false _)
          · exact if_neg hj
        exact hbefore.imp (fun ⟨hw, hout⟩ => ⟨hw, fun j => (hsame j).trans (hout j)⟩)
          (fun ⟨hw, k, hk⟩ => ⟨hw, k, fun j => by rw [hsame j]; exact hk j⟩)
    | unlock =>
      have hinside := hlast.init.2 rfl
      refine Or.inl ⟨hspec, fun j => ?_⟩
      rw [inside_own_append]
      by_cases hj : j = i
      · exact if_pos hj
      · rw [if_neg hj]
        rcases hbefore with ⟨-, hout⟩ | ⟨-, k, hk⟩
        · exact hout j
        · rw [Bool.eq_false_iff]
          intro hj'
          exact hj (((hk j).mp hj').trans ((hk i).mp hinside).symm)

/-! ## Runs -/

/-- The processor took the lock and did not give it back yet. -/
def Inside (M : Machine Local Shared Op Bool) (s : System ι Local Shared Op Bool) (i : ι) : Prop :=
  inside (s.past i) = true ∧ ∀ l, s.phase i = .busy .unlock l → ∀ r, ¬ M.Returning r l

/-- The processor has the lock and is on its way back from the call that took it. -/
def JustAcquired (M : Machine Local Shared Op Bool) (s : System ι Local Shared Op Bool) (i : ι) :
    Prop :=
  ∃ op l r, s.phase i = .busy op l ∧ takes op r = true ∧ M.Returning r l

section

variable {M : Machine Local Shared Op Bool} {s : System ι Local Shared Op Bool} {view : Shared → W}
variable {Pending : Op → Local → Prop} {Meets : Op → Local → Shared → Prop}

/-- The calls of a run, with the one that is in progress. -/
theorem uses_past {m : Shared} (hrun : M.Run Permit Meets (.start ι Local Op Bool m) s) (i : ι) :
    Uses (s.past i) ∧ ∀ op l, s.phase i = .busy op l → Permit (s.past i) op := by
  refine hrun.invariant (P := fun s => ∀ i, Uses (s.past i) ∧
    ∀ op l, s.phase i = .busy op l → Permit (s.past i) op) ?_
    (fun i => ⟨.nil, fun _ _ h => nomatch h⟩) i
  intro s j s' hs hstep i
  by_cases hi : i = j
  · subst hi
    cases hstep with
    | call _ hpermit _ =>
      refine ⟨(hs i).1, fun op l hphase => ?_⟩
      dsimp only at hphase
      rw [Function.update_self] at hphase
      cases hphase
      exact hpermit
    | instr hbusy _ _ =>
      refine ⟨(hs i).1, fun op l hphase => ?_⟩
      dsimp only at hphase
      rw [Function.update_self] at hphase
      cases hphase
      exact (hs i).2 _ _ hbusy
    | ret hbusy _ =>
      refine ⟨?_, fun op l hphase => ?_⟩
      · dsimp only
        rw [Function.update_self]
        exact .snoc (hs i).1 ((hs i).2 _ _ hbusy)
      · dsimp only at hphase
        rw [Function.update_self] at hphase
        exact nomatch hphase
  · rw [hstep.past_of_ne (Ne.symm hi), hstep.phase_of_ne (Ne.symm hi)]
    exact hs i

/-- A call before its effect is not on its way back as one that took the lock or gave
it back: with the lock held it does neither. -/
theorem not_returning_of_pending (hne : held ≠ free)
    (himp : M.Implements (fun _ _ _ => True) view (Spec free held) Pending) {m : Shared}
    (hm : view m = held) {op : Op} {l : Local} {r : Bool} (h : Pending op l)
    (heffect : op = .unlock ∨ takes op r = true) : ¬ M.Returning r l := by
  refine Machine.not_returning (m := m) (himp.result op) (fun l l' hpending hstep => ?_) h
  refine (himp.step op l m l' m hpending trivial hstep).imp And.right ?_
  rintro ⟨r', hspec, hreturning⟩
  rw [hm] at hspec
  cases op with
  | lock => exact absurd hspec.1 hne
  | tryLock =>
    rcases hspec with ⟨hfree, -⟩ | ⟨-, -, rfl⟩
    · exact absurd hfree hne
    · rcases heffect with heq | rfl
      · exact nomatch heq
      · exact ⟨false, Bool.false_ne_true, hreturning⟩
  | unlock => exact absurd hspec hne

/-- Who has the lock is what the order of the calls says. -/
theorem holds_iff (hne : held ≠ free)
    (himp : M.Implements (fun _ _ _ => True) view (Spec free held) Pending) {m : Shared}
    (hm : view m = held) {log : List (ι × Op × Bool)} {i : ι}
    (h : Machine.Tracks M Pending s log i) :
    (Inside M s i ∨ JustAcquired M s i) ↔ inside (Machine.own i log) = true := by
  rw [Machine.Tracks] at h
  cases hphase : s.phase i with
  | idle =>
    rw [hphase] at h
    rw [h]
    constructor
    · rintro (hinside | ⟨op, l, r, hbusy, -⟩)
      · exact hinside.1
      · cases hphase.symm.trans hbusy
    · refine fun hinside => Or.inl ⟨hinside, fun l hbusy => ?_⟩
      cases hphase.symm.trans hbusy
  | busy op l =>
    rw [hphase] at h
    rcases h with ⟨hpending, hown⟩ | ⟨r, hreturning, hown⟩
    · rw [hown]
      constructor
      · rintro (hinside | ⟨op', l', r', hbusy, htakes, hreturning⟩)
        · exact hinside.1
        · cases hphase.symm.trans hbusy
          exact absurd hreturning
            (not_returning_of_pending hne himp hm hpending (Or.inr htakes))
      · refine fun hinside => Or.inl ⟨hinside, fun l' hbusy r => ?_⟩
        cases hphase.symm.trans hbusy
        exact not_returning_of_pending hne himp hm hpending (Or.inl rfl)
    · rw [hown, inside_append]
      by_cases hunlock : op = .unlock
      · subst hunlock
        constructor
        · rintro (hinside | ⟨op', l', r', hbusy, htakes, -⟩)
          · exact absurd hreturning (hinside.2 l hphase r)
          · cases hphase.symm.trans hbusy
            exact htakes
        · exact fun hinside => absurd hinside Bool.false_ne_true
      · have hafter : after (inside (s.past i)) (op, r) = (inside (s.past i) || takes op r) := by
          cases op with
          | lock => rfl
          | tryLock => rfl
          | unlock => exact absurd rfl hunlock
        rw [hafter, Bool.or_eq_true]
        constructor
        · rintro (hinside | ⟨op', l', r', hbusy, htakes, hreturning'⟩)
          · exact Or.inl hinside.1
          · cases hphase.symm.trans hbusy
            rw [hreturning.unique hreturning' m]
            exact Or.inr htakes
        · refine Or.imp (fun hinside => ⟨hinside, fun l' hbusy => ?_⟩)
            (fun htakes => ⟨op, l, r, hphase, htakes, hreturning⟩)
          cases hphase.symm.trans hbusy
          exact absurd rfl hunlock

/-- The rule for the machine of a lock. -/
theorem exclusive (hne : held ≠ free)
    (himp : M.Implements (fun _ _ _ => True) view (Spec free held) Pending)
    {m m₁ : Shared} (hm : view m = free) (hm₁ : view m₁ = held)
    (hrun : M.Run Permit (fun _ _ _ => True) (.start ι Local Op Bool m) s) :
    (∀ i j, Inside M s i ∨ JustAcquired M s i → Inside M s j ∨ JustAcquired M s j → i = j) ∧
      (view s.shared = held ↔ ∃ i, Inside M s i ∨ JustAcquired M s i) := by
  obtain ⟨log, hlegal, htracks⟩ := Machine.linearizable himp hrun
  have huses : ∀ i, Uses (Machine.own i log) := by
    intro i
    obtain ⟨huses, hpermit⟩ := uses_past hrun i
    have hi := htracks i
    rw [Machine.Tracks] at hi
    cases hphase : s.phase i with
    | idle =>
      rw [hphase] at hi
      exact hi ▸ huses
    | busy op l =>
      rw [hphase] at hi
      rcases hi with ⟨-, hown⟩ | ⟨r, -, hown⟩
      · exact hown ▸ huses
      · exact hown ▸ huses.snoc (hpermit op l hphase)
  have hiff := fun i => holds_iff hne himp hm₁ (htracks i)
  rcases Uses.one_holder hne hlegal hm huses with ⟨hfree, hout⟩ | ⟨hheld, k, hk⟩
  · have hnobody : ∀ i, ¬ (Inside M s i ∨ JustAcquired M s i) := by
      intro i hi
      have hinside := (hiff i).mp hi
      rw [hout i] at hinside
      exact absurd hinside Bool.false_ne_true
    refine ⟨fun i j hi _ => absurd hi (hnobody i), fun hheld => ?_, fun hholder => ?_⟩
    · exact absurd (hheld.symm.trans hfree) hne
    · obtain ⟨i, hi⟩ := hholder
      exact absurd hi (hnobody i)
  · have honly : ∀ i, (Inside M s i ∨ JustAcquired M s i) ↔ i = k := fun i => (hiff i).trans (hk i)
    refine ⟨fun i j hi hj => ?_, fun _ => ⟨k, (honly k).mpr rfl⟩, fun _ => hheld⟩
    exact ((honly i).mp hi).trans ((honly j).mp hj).symm

end

end Lib.Interleave.Mutex
