import Mathlib.Data.List.Basic
import Xeos.Lib.Loop

/-!
# Linked lists in memory

A linked list is a start pointer and a function that reads the link of a node;
the pointer zero ends it.  `Chain next p l` says that the nodes from `p` on are
those of `l`, and `Reaches next p q` that the node `q` is one of them.

`walkStep` is the loop that visits the nodes in turn, until a visit has a result.
`walkList` visits the nodes of a list instead, by recursion.  `returns_walk` says
that they agree as long as the visits keep the links.  `logVisit` is a visit that also
keeps a log of what it uses, and it takes the same way.
-/

namespace Lib

/-! ## The nodes of a list -/

/-- The nodes from `p` on, up to the end of the list. -/
inductive Chain (next : Nat → Nat) : Nat → List Nat → Prop
  | nil : Chain next 0 []
  | cons {p : Nat} {l : List Nat} : p ≠ 0 → Chain next (next p) l → Chain next p (p :: l)

/-- The node `q` is in the list that starts at `p`. -/
inductive Reaches (next : Nat → Nat) : Nat → Nat → Prop
  | here {p : Nat} : p ≠ 0 → Reaches next p p
  | later {p q : Nat} : p ≠ 0 → Reaches next (next p) q → Reaches next p q

section Chain

variable {next next' : Nat → Nat} {p q : Nat} {l : List Nat}

theorem Chain.ne_zero (h : Chain next p l) (hq : q ∈ l) : q ≠ 0 := by
  induction h with
  | nil => cases hq
  | cons hp _ ih =>
    cases hq with
    | head => exact hp
    | tail _ hq => exact ih hq

/-- The links of the nodes decide the list. -/
theorem Chain.congr (h : Chain next p l) (hnext : ∀ q ∈ l, next' q = next q) :
    Chain next' p l := by
  induction h with
  | nil => exact .nil
  | @cons p l hp _ ih =>
    refine .cons hp ?_
    rw [hnext p List.mem_cons_self]
    exact ih (fun q hq => hnext q (List.mem_cons_of_mem p hq))

theorem Chain.reaches_iff (h : Chain next p l) : Reaches next p q ↔ q ∈ l := by
  induction h with
  | nil =>
    constructor
    · intro hr
      cases hr with
      | here h0 => exact absurd rfl h0
      | later h0 _ => exact absurd rfl h0
    · intro hq
      cases hq
  | @cons p l hp _ ih =>
    rw [List.mem_cons]
    constructor
    · intro hr
      cases hr with
      | here _ => exact .inl rfl
      | later _ hr => exact .inr (ih.mp hr)
    · intro hq
      cases hq with
      | inl heq =>
        subst heq
        exact .here hp
      | inr hmem => exact .later hp (ih.mpr hmem)

theorem Chain.start_mem (h : Chain next p l) : p = 0 ∨ p ∈ l := by
  cases h with
  | nil => exact .inl rfl
  | cons => exact .inr List.mem_cons_self

/-- The link of a node leads to a node, or ends the list. -/
theorem Chain.next_mem (h : Chain next p l) (hq : q ∈ l) : next q = 0 ∨ next q ∈ l := by
  induction h with
  | nil => cases hq
  | cons hp htail ih =>
    cases hq with
    | head => exact htail.start_mem.imp id (List.mem_cons_of_mem _)
    | tail _ hq => exact (ih hq).imp id (List.mem_cons_of_mem _)

theorem Chain.start_le {r : Nat} (h : Chain next p l) (hl : l.Pairwise (· < ·)) (hr : r ∈ l) :
    p ∈ l ∧ p ≤ r := by
  cases h with
  | nil => cases hr
  | cons =>
    refine ⟨List.mem_cons_self, ?_⟩
    cases hr with
    | head => exact Nat.le_refl _
    | tail _ hr => exact Nat.le_of_lt (List.rel_of_pairwise_cons hl hr)

/-- In an ascending list the link of a node goes no further than to a later node. -/
theorem Chain.next_le {r : Nat} (h : Chain next p l) (hl : l.Pairwise (· < ·)) (hq : q ∈ l)
    (hr : r ∈ l) (hlt : q < r) : next q ∈ l ∧ next q ≤ r := by
  induction h with
  | nil => cases hq
  | @cons p l hp htail ih =>
    obtain ⟨hhead, htailOrder⟩ := List.pairwise_cons.mp hl
    cases hr with
    | head =>
      cases hq with
      | head => exact absurd hlt (Nat.lt_irrefl _)
      | tail _ hq => exact absurd (hhead q hq) (Nat.lt_asymm hlt)
    | tail _ hr =>
      cases hq with
      | head =>
        obtain ⟨hmem, hle⟩ := htail.start_le htailOrder hr
        exact ⟨List.mem_cons_of_mem _ hmem, hle⟩
      | tail _ hq =>
        obtain ⟨hmem, hle⟩ := ih htailOrder hq hr
        exact ⟨List.mem_cons_of_mem _ hmem, hle⟩

end Chain

/-! ## Walking a list -/

variable {σ ρ : Type}

/-- `while (p != 0) { visit(p); p = next(p); }`, where a visit may leave the loop
with a result.  The link is read after the visit. -/
def walkStep (next : σ → Nat → Nat) (visit : Nat → σ → Option ρ × σ) :
    Nat × σ → (Nat × σ) ⊕ (Option ρ × σ)
  | (p, s) =>
    if p = 0 then .inr (none, s)
    else
      match visit p s with
      | (some r, s') => .inr (some r, s')
      | (none, s') => .inl (next s' p, s')

/-- The visits of the nodes of a list, up to the first one with a result. -/
def walkList (visit : Nat → σ → Option ρ × σ) : List Nat → σ → Option ρ × σ
  | [], s => (none, s)
  | p :: l, s =>
    match visit p s with
    | (some r, s') => (some r, s')
    | (none, s') => walkList visit l s'

section Walk

variable {next : σ → Nat → Nat} {visit : Nat → σ → Option ρ × σ}

theorem walkList_nil (s : σ) : walkList visit [] s = (none, s) := rfl

theorem walkList_cons (p : Nat) (l : List Nat) (s : σ) :
    walkList visit (p :: l) s =
      match visit p s with
      | (some r, s') => (some r, s')
      | (none, s') => walkList visit l s' := rfl

/-- The walk visits the nodes of the list.  `I` is what the visits keep, and it
holds the links in place. -/
theorem returns_walk (I : σ → Prop) {nodes l : List Nat} {p : Nat} {s : σ}
    (hsub : ∀ q ∈ l, q ∈ nodes)
    (hlinks : ∀ t t', I t → I t' → ∀ q ∈ nodes, next t' q = next t q)
    (hvisit : ∀ q ∈ nodes, ∀ t, I t → (visit q t).1 = none → I (visit q t).2)
    (hI : I s) (hchain : Chain (next s) p l) :
    Returns (walkStep next visit) (p, s) (walkList visit l s) := by
  induction l generalizing p s with
  | nil =>
    cases hchain
    exact Returns.done rfl
  | cons q l ih =>
    cases hchain with
    | cons hp hrest =>
      have hstep : walkStep next visit (q, s) =
          match visit q s with
          | (some r, s') => .inr (some r, s')
          | (none, s') => .inl (next s' q, s') := if_neg hp
      rw [walkList_cons]
      cases hv : visit q s with
      | mk r s' =>
        rw [hv] at hstep
        cases r with
        | some r => exact Returns.done hstep
        | none =>
          have hq := hsub q List.mem_cons_self
          have hI' : I s' := by
            have hkeep := hvisit q hq s hI
            rw [hv] at hkeep
            exact hkeep rfl
          refine Returns.next hstep (ih (fun r hr => hsub r (List.mem_cons_of_mem q hr)) hI' ?_)
          rw [hlinks s s' hI hI' q hq]
          exact hrest.congr (fun r hr => hlinks s s' hI hI' r (hsub r (List.mem_cons_of_mem q hr)))

/-- Visits that give no result and change nothing: only the first visit with a result
counts. -/
theorem walkList_cases (visit : Nat → σ → Option ρ × σ) {l : List Nat} {s : σ}
    (hnone : ∀ p ∈ l, (visit p s).1 = none → (visit p s).2 = s) :
    (walkList visit l s = (none, s) ∧ ∀ p ∈ l, (visit p s).1 = none) ∨
    ∃ before p after r, l = before ++ p :: after ∧ (∀ q ∈ before, (visit q s).1 = none) ∧
      (visit p s).1 = some r ∧ walkList visit l s = visit p s := by
  induction l with
  | nil => exact .inl ⟨rfl, nofun⟩
  | cons p l ih =>
    rw [walkList_cons]
    cases hv : visit p s with
    | mk r s' =>
      cases r with
      | some r => exact .inr ⟨[], p, l, r, rfl, nofun, by rw [hv], by rw [hv]⟩
      | none =>
        have hs : s' = s := by
          have hkeep := hnone p List.mem_cons_self
          rw [hv] at hkeep
          exact hkeep rfl
        subst hs
        have hp : (visit p s').1 = none := by rw [hv]
        cases ih (fun q hq => hnone q (List.mem_cons_of_mem p hq)) with
        | inl hrest =>
          refine .inl ⟨hrest.1, ?_⟩
          intro q hq
          cases hq with
          | head => exact hp
          | tail _ hq => exact hrest.2 q hq
        | inr hrest =>
          obtain ⟨before, q, after, r, hl, hbefore, hsome, hwalk⟩ := hrest
          refine .inr ⟨p :: before, q, after, r, by rw [hl, List.cons_append], ?_, hsome, hwalk⟩
          intro q' hq'
          cases hq' with
          | head => exact hp
          | tail _ hq' => exact hbefore q' hq'

end Walk

/-! ## Walks with a log -/

/-- A visit that also writes down what it uses of its node. -/
def logVisit {υ : Type} (visit : Nat → σ → Option ρ × σ) (uses : Nat → σ → List υ) (p : Nat)
    (t : σ × List (Nat × υ)) : Option ρ × (σ × List (Nat × υ)) :=
  ((visit p t.1).1, (visit p t.1).2, t.2 ++ (uses p t.1).map (Prod.mk p))

section Log

variable {υ : Type} {next : σ → Nat → Nat} {visit : Nat → σ → Option ρ × σ}
  {uses : Nat → σ → List υ}

/-- The log does not change the walk. -/
theorem returns_logVisit_iff {p : Nat} {s s' : σ} {log : List (Nat × υ)} {result : Option ρ} :
    (∃ log', Returns (walkStep (fun t => next t.1) (logVisit visit uses)) (p, s, log)
      (result, s', log')) ↔ Returns (walkStep next visit) (p, s) (result, s') := by
  have hstep : ∀ fuel p s log,
      (runFor (walkStep (fun t => next t.1) (logVisit visit uses)) fuel (p, s, log)).map
        (fun r => (r.1, r.2.1)) = runFor (walkStep next visit) fuel (p, s) := by
    intro fuel
    induction fuel with
    | zero => exact fun _ _ _ => rfl
    | succ fuel ih =>
      intro p s log
      rw [runFor, runFor]
      by_cases hp : p = 0
      · simp [walkStep, hp]
      · cases hv : visit p s with
        | mk r s1 => cases r <;> simp [walkStep, hp, logVisit, hv, ih]
  constructor
  · rintro ⟨log', fuel, hfuel⟩
    refine ⟨fuel, ?_⟩
    rw [← hstep fuel p s log, hfuel]
    rfl
  · rintro ⟨fuel, hfuel⟩
    rw [← hstep fuel p s log, Option.map_eq_some_iff] at hfuel
    obtain ⟨r, hr, heq⟩ := hfuel
    cases heq
    exact ⟨r.2.2, fuel, hr⟩

/-- What is in the log of a walk whose visits without a result change nothing: the uses
of the nodes up to the first one with a result. -/
theorem mem_walkList_logVisit {l : List Nat} {s : σ}
    (hnone : ∀ p ∈ l, (visit p s).1 = none → (visit p s).2 = s) {log : List (Nat × υ)}
    {u : Nat × υ} :
    u ∈ (walkList (logVisit visit uses) l (s, log)).2.2 ↔ u ∈ log ∨
      ∃ before after, l = before ++ u.1 :: after ∧ (∀ q ∈ before, (visit q s).1 = none) ∧
        u.2 ∈ uses u.1 s := by
  induction l generalizing log with
  | nil => simp [walkList_nil]
  | cons p l ih =>
    have hhead : u ∈ log ++ (uses p s).map (Prod.mk p) ↔ u ∈ log ∨ (p = u.1 ∧ u.2 ∈ uses p s) := by
      obtain ⟨q, x⟩ := u
      simp only [List.mem_append, List.mem_map, Prod.mk.injEq]
      refine or_congr_right ?_
      constructor
      · rintro ⟨y, hy, rfl, rfl⟩
        exact ⟨rfl, hy⟩
      · rintro ⟨rfl, hy⟩
        exact ⟨x, hy, rfl, rfl⟩
    cases hv : visit p s with
    | mk r s1 =>
      cases r with
      | some r =>
        have hwalk : walkList (logVisit visit uses) (p :: l) (s, log)
            = (some r, s1, log ++ (uses p s).map (Prod.mk p)) := by
          simp [walkList_cons, logVisit, hv]
        rw [hwalk, hhead]
        refine or_congr_right ?_
        constructor
        · rintro ⟨rfl, hu⟩
          exact ⟨[], l, rfl, nofun, hu⟩
        · rintro ⟨before, after, hl, hbefore, hu⟩
          cases before with
          | nil =>
            cases hl
            exact ⟨rfl, hu⟩
          | cons q before =>
            cases hl
            have hq := hbefore p List.mem_cons_self
            rw [hv] at hq
            cases hq
      | none =>
        have hs : s1 = s := by
          have hkeep := hnone p List.mem_cons_self
          rw [hv] at hkeep
          exact hkeep rfl
        subst hs
        have hwalk : walkList (logVisit visit uses) (p :: l) (s1, log)
            = walkList (logVisit visit uses) l (s1, log ++ (uses p s1).map (Prod.mk p)) := by
          simp [walkList_cons, logVisit, hv]
        rw [hwalk, ih (fun q hq => hnone q (List.mem_cons_of_mem p hq)), hhead, or_assoc]
        refine or_congr_right ?_
        constructor
        · rintro (⟨rfl, hu⟩ | ⟨before, after, rfl, hbefore, hu⟩)
          · exact ⟨[], l, rfl, nofun, hu⟩
          · refine ⟨p :: before, after, rfl, ?_, hu⟩
            intro q hq
            cases hq with
            | head => rw [hv]
            | tail _ hq => exact hbefore q hq
        · rintro ⟨before, after, hl, hbefore, hu⟩
          cases before with
          | nil =>
            cases hl
            exact .inl ⟨rfl, hu⟩
          | cons q before =>
            cases hl
            exact .inr ⟨before, after, rfl, fun q hq => hbefore q (List.mem_cons_of_mem p hq), hu⟩

end Log

end Lib
