import Mathlib.Data.Sum.Basic
import Xeos.Video.Compositional
import Xeos.Video.Integer

/-!
# The returned count

The count of the format engine is the number of the characters that it has handed to the handler.
A call with a handler and one with or without a handler go through the same steps, as long as the
second one does not stay in the loop over a string.
-/

namespace Xeos.Video.Printf

open Lib

/-! ## Two calls in step -/

def Event.isChar : Event → Bool
  | .char _ => true
  | .store _ _ => false

/-- The number of the calls of the handler. -/
def handlerCalls (out : List Event) : Nat := out.countP Event.isChar

/-- The same call, with this handler or without one. -/
abbrev Config.withHandler (cfg : Config) (handler : Bool) : Config :=
  { cfg with handler := handler }

/-- The variables of two calls are the same, and the count of the first one is right. -/
structure Engine.InStep (s s' : Engine) : Prop where
  format : s'.format = s.format
  ap : s'.ap = s.ap
  count : s'.count = s.count
  calls : s.count = Int32.ofNat (handlerCalls s.out)

inductive Phase.InStep : Phase → Phase → Prop
  | outer {s s' : Engine} (h : s.InStep s') : Phase.InStep (.outer s) (.outer s')
  | inner {s s' : Engine} (d : Directive) (h : s.InStep s') : Phase.InStep (.inner d s) (.inner d s')
  | string {s s' : Engine} (d : Directive) (len : Nat) (bytes : List UInt8) (h : s.InStep s') :
      Phase.InStep (.string d len bytes s) (.string d len bytes s')

inductive Result.InStep : Result → Result → Prop
  | returned {count : Int32} {out out' : List Event} (h : count = Int32.ofNat (handlerCalls out)) :
      Result.InStep (.returned count out) (.returned count out')
  | overread : Result.InStep .overread .overread
  | overflow : Result.InStep .overflow .overflow

section InStep

variable {cfg : Config} (hhandler : cfg.handler = true) (handler : Bool) {s s' : Engine}

theorem Engine.InStep.arg (h : s.InStep s') :
    Engine.InStep { s with ap := s.ap + 1 } { s' with ap := s'.ap + 1 } :=
  ⟨h.format, congrArg (· + 1) h.ap, h.count, h.calls⟩

theorem Engine.InStep.at (h : s.InStep s') (format : Cursor) :
    Engine.InStep { s with format := format } { s' with format := format } :=
  ⟨rfl, h.ap, h.count, h.calls⟩

theorem Engine.InStep.next (h : s.InStep s') :
    Engine.InStep { s with format := s.format.next } { s' with format := s'.format.next } :=
  ⟨congrArg Cursor.next h.format, h.ap, h.count, h.calls⟩

include hhandler

theorem Engine.InStep.put (h : s.InStep s') (c : UInt8) :
    (s.put cfg c).InStep (s'.put (cfg.withHandler handler) c) := by
  refine ⟨h.format, h.ap, congrArg (· + 1) h.count, ?_⟩
  have hcalls : handlerCalls (s.put cfg c).out = handlerCalls s.out + 1 := by
    simp only [Engine.put, hhandler, if_true, handlerCalls, List.countP_append]
    rfl
  rw [hcalls, Int32.ofNat_add, ← h.calls]
  rfl

theorem Engine.InStep.puts (h : s.InStep s') (cs : List UInt8) :
    (s.puts cfg cs).InStep (s'.puts (cfg.withHandler handler) cs) := by
  induction cs generalizing s s' with
  | nil => exact h
  | cons c cs ih => exact ih (h.put hhandler handler c)

theorem convertChar_inStep (h : s.InStep s') (d : Directive) :
    (convertChar cfg d s).InStep (convertChar (cfg.withHandler handler) d s') := by
  have harg : (cfg.withHandler handler).args.int s'.ap = cfg.args.int s.ap :=
    congrArg cfg.args.int h.ap
  unfold convertChar
  dsimp only
  rw [harg]
  cases d.align with
  | false => exact ((h.arg.puts hhandler handler _).put hhandler handler _).next
  | true => exact ((h.arg.put hhandler handler _).puts hhandler handler _).next

theorem putSign_inStep (h : s.InStep s') (d : Directive) (v : Number) :
    (putSign cfg d v s).1 = (putSign (cfg.withHandler handler) d v s').1 ∧
      (putSign cfg d v s).2.InStep (putSign (cfg.withHandler handler) d v s').2 := by
  unfold putSign
  dsimp only
  split_ifs
  all_goals first | exact ⟨rfl, h⟩ | exact ⟨rfl, h.put hhandler handler _⟩

theorem putSharp_inStep (h : s.InStep s') (v : Number) (n : UInt64) :
    (putSharp cfg v n s).InStep (putSharp (cfg.withHandler handler) v n s') := by
  unfold putSharp
  split
  · split_ifs
    · exact h.put hhandler handler _
    · exact h
  · split_ifs
    · exact h.puts hhandler handler _
    · exact h
  · exact h

theorem convertInteger_inStep (h : s.InStep s') (c : UInt8) (d : Directive) :
    Option.Rel Engine.InStep (convertInteger cfg c d s)
      (convertInteger (cfg.withHandler handler) c d s') := by
  have hfetch : fetch (cfg.withHandler handler) d (normalizeType (typeBits c)) s'.ap
      = fetch cfg d (normalizeType (typeBits c)) s.ap := by
    rw [h.ap]
    rfl
  unfold convertInteger
  dsimp only
  rw [hfetch]
  have hsign := putSign_inStep hhandler handler h.arg d
    (fetch cfg d (normalizeType (typeBits c)) s.ap)
  rw [← hsign.1]
  have hsharp := putSharp_inStep hhandler handler hsign.2
    (fetch cfg d (normalizeType (typeBits c)) s.ap)
    (putSign cfg d (fetch cfg d (normalizeType (typeBits c)) s.ap) { s with ap := s.ap + 1 }).1
  split_ifs
  · exact .none
  · have hputs := hsharp.puts hhandler handler
      (padDigits d (digits (radixOf (fetch cfg d (normalizeType (typeBits c)) s.ap).intType)
        (fetch cfg d (normalizeType (typeBits c)) s.ap).intType
        (putSign cfg d (fetch cfg d (normalizeType (typeBits c)) s.ap)
          { s with ap := s.ap + 1 }).1.toNat []))
    exact .some ⟨congrArg Cursor.next hsharp.format, hputs.ap, hputs.count, hputs.calls⟩

theorem startString_inStep (h : s.InStep s') (d : Directive) :
    (startString cfg d s).InStep (startString (cfg.withHandler handler) d s') := by
  have harg : (cfg.withHandler handler).args.string s'.ap = cfg.args.string s.ap :=
    congrArg cfg.args.string h.ap
  have hwidth : widthSize (cfg.withHandler handler) d = widthSize cfg d := rfl
  unfold startString
  dsimp only
  rw [harg, hwidth]
  split_ifs
  · exact .string _ _ _ (h.arg.puts hhandler handler _)
  · exact .string _ _ _ h.arg

theorem endString_inStep (h : s.InStep s') (d : Directive) (len : Nat) :
    (endString cfg d len s).InStep (endString (cfg.withHandler handler) d len s') := by
  have hwidth : widthSize (cfg.withHandler handler) d = widthSize cfg d := rfl
  unfold endString
  dsimp only
  rw [hwidth]
  split_ifs
  · exact (h.puts hhandler handler _).next
  · exact h.next

omit hhandler in
theorem stepPrecision_inStep (h : s.InStep s') (d : Directive) :
    (stepPrecision cfg d s).InStep (stepPrecision (cfg.withHandler handler) d s') := by
  have harg : (cfg.withHandler handler).args.int s'.ap = cfg.args.int s.ap :=
    congrArg cfg.args.int h.ap
  unfold stepPrecision
  dsimp only
  rw [harg, h.format]
  split
  · split_ifs
    · exact .inner _ (h.arg.at _)
    · exact .inner _ (h.at _)
    · exact .inner _ (h.at _)
  · exact .inner _ (h.at _)

theorem stepInner_inStep (h : s.InStep s') (c : UInt8) (d : Directive) :
    Sum.LiftRel Phase.InStep Result.InStep (stepInner cfg c d s)
      (stepInner (cfg.withHandler handler) c d s') := by
  have harg : (cfg.withHandler handler).args.int s'.ap = cfg.args.int s.ap :=
    congrArg cfg.args.int h.ap
  unfold stepInner
  cases classify c with
  | number =>
    refine .inl (.inner d ⟨congrArg Cursor.next h.format, congrArg (· + 1) h.ap, h.count, ?_⟩)
    have hcalls : handlerCalls (s.out ++ [Event.store (cfg.args.pointer s.ap) s.count])
        = handlerCalls s.out := by
      simp [handlerCalls, List.countP_append, Event.isChar]
    rw [hcalls]
    exact h.calls
  | digit =>
    dsimp only
    rw [h.format]
    cases s.format with
    | inside rest => exact .inl (.inner _ (h.at _))
    | past => exact .inr .overread
  | star =>
    dsimp only
    rw [harg]
    exact .inl (.inner _ h.arg.next)
  | period => exact .inl (stepPrecision_inStep handler h d)
  | longDouble => exact .inl (.inner d h)
  | char => exact .inl (.outer (convertChar_inStep hhandler handler h d))
  | string => exact .inl (startString_inStep hhandler handler h d)
  | integer =>
    have hconvert := convertInteger_inStep hhandler handler h c d
    dsimp only
    generalize convertInteger cfg c d s = o at hconvert ⊢
    generalize convertInteger (cfg.withHandler handler) c d s' = o' at hconvert ⊢
    cases hconvert with
    | none => exact .inr .overflow
    | some hnext => exact .inl (.outer hnext)
  | real => exact .inl (.outer h.arg.next)
  | other => exact .inl (.outer h.next)
  | _ => exact .inl (.inner _ h.next)

/-- One step of both calls, if the second one is not held in the loop over a string. -/
theorem step_inStep {φ φ' : Phase} (h : φ.InStep φ')
    (hstring : handler = false → ∀ d len c bytes t, φ' ≠ .string d len (c :: bytes) t) :
    Sum.LiftRel Phase.InStep Result.InStep (step cfg φ) (step (cfg.withHandler handler) φ') := by
  cases h with
  | @outer s s' h =>
    have hformat := h.format
    unfold step
    dsimp only
    rw [hformat]
    cases s.format.read with
    | none => exact .inr .overread
    | some c =>
      dsimp only
      split_ifs
      · rw [h.count]
        exact .inr (.returned h.calls)
      · exact .inl (.outer ((h.put hhandler handler c).at _))
      · exact .inl (.outer (((h.at s.format.next).put hhandler handler 0x25).at _))
      · exact .inl (.inner _ (h.at _))
  | inner d h =>
    unfold step
    dsimp only
    rw [h.format]
    split
    · exact .inr .overread
    · exact stepInner_inStep hhandler handler h _ d
  | string d len bytes h =>
    cases bytes with
    | nil => exact .inl (.outer (endString_inStep hhandler handler h d len))
    | cons c bytes =>
      have htrue : handler = true := by
        by_contra hfalse
        exact hstring (Bool.eq_false_iff.mpr hfalse) d len c bytes _ rfl
      subst htrue
      unfold step
      dsimp only
      rw [hhandler, if_pos rfl, if_pos rfl]
      exact .inl (.string _ _ _ (h.put hhandler true c))

end InStep

/-! ## The result -/

/-- Two machines whose steps keep a relation, where the second one returns. -/
theorem Returns.rel {σ σ' ρ ρ' : Type} {step : σ → σ ⊕ ρ} {step' : σ' → σ' ⊕ ρ'}
    {R : σ → σ' → Prop} {Q : ρ → ρ' → Prop} {s : σ} {s' : σ'} {r' : ρ'}
    (hstep : ∀ t t', R t t' → Returns step' t' r' → Sum.LiftRel R Q (step t) (step' t'))
    (h : R s s') (hr : Returns step' s' r') : ∃ r, Returns step s r ∧ Q r r' := by
  rcases hr with ⟨fuel, hfuel⟩
  induction fuel generalizing s s' with
  | zero => exact nomatch hfuel
  | succ fuel ih =>
    have hround := hstep s s' h ⟨fuel + 1, hfuel⟩
    rw [runFor] at hfuel
    cases hs : step s with
    | inl t =>
      cases hs' : step' s' with
      | inl t' =>
        rw [hs, hs'] at hround
        rw [hs'] at hfuel
        rcases ih (Sum.liftRel_inl_inl.mp hround) hfuel with ⟨r, hr, hrel⟩
        exact ⟨r, hr.next hs, hrel⟩
      | inr u' =>
        rw [hs, hs'] at hround
        exact absurd hround Sum.not_liftRel_inl_inr
    | inr u =>
      cases hs' : step' s' with
      | inl t' =>
        rw [hs, hs'] at hround
        exact absurd hround Sum.not_liftRel_inr_inl
      | inr u' =>
        rw [hs, hs'] at hround
        rw [hs'] at hfuel
        rw [← Option.some.inj hfuel]
        exact ⟨u, Returns.done hs, Sum.liftRel_inr_inr.mp hround⟩

/-- Without a handler the loop over a string does not end. -/
theorem not_returns_string {cfg : Config} (hhandler : cfg.handler = false) (d : Directive)
    (len : Nat) (c : UInt8) (rest : List UInt8) (s : Engine) (r : Result) :
    ¬ Returns (step cfg) (.string d len (c :: rest) s) r := by
  refine not_returns_of_invariant (fun φ => ∃ s, φ = .string d len (c :: rest) s) ?_ ⟨s, rfl⟩
  rintro φ ⟨t, rfl⟩
  refine ⟨.string d len (c :: rest) (t.put cfg c), ?_, t.put cfg c, rfl⟩
  simp only [step, hhandler, Bool.false_eq_true, if_false]

/-- A call with a handler returns as the other one does, and with the right count. -/
theorem returns_inStep {cfg : Config} (hhandler : cfg.handler = true) (handler : Bool)
    {φ φ' : Phase} {r' : Result} (h : φ.InStep φ')
    (hr : Returns (step (cfg.withHandler handler)) φ' r') :
    ∃ r, Returns (step cfg) φ r ∧ r.InStep r' := by
  refine Returns.rel (fun t t' ht hret => step_inStep hhandler handler ht ?_) h hr
  rintro rfl d len c bytes u rfl
  exact not_returns_string rfl d len c bytes u r' hret

theorem start_inStep (format : CString) : (start format).InStep (start format) :=
  .outer ⟨rfl, rfl, rfl, rfl⟩

/-- The format consists of complete directives, and none of them is `%s`. -/
def NoString (format : CString) : Prop :=
  ∃ letters, Complete format.val letters ∧ 0x73 ∉ letters

/-- What a call with a handler returns is the number of the calls of the handler, and the same call
without one returns the same when the format has no `%s`. -/
def Counts (lp64 : Bool) (args : Args) (format : CString) : Prop :=
  ∃ count out, ProcessFormatString ⟨lp64, true, args⟩ format (.returned count out) ∧
    count = Int32.ofNat (handlerCalls out) ∧
    (NoString format → ∃ out', ProcessFormatString ⟨lp64, false, args⟩ format (.returned count out'))

/-- A call that returns does so with the number of the calls of the handler. -/
theorem returned_calls {lp64 : Bool} {args : Args} {format : CString} {count : Int32}
    {out : List Event} (h : ProcessFormatString ⟨lp64, true, args⟩ format (.returned count out)) :
    count = Int32.ofNat (handlerCalls out) := by
  rcases @returns_inStep ⟨lp64, true, args⟩ rfl true _ _ _ (start_inStep format) h
    with ⟨r, hr, hrel⟩
  cases h.unique hr
  cases hrel with
  | returned hcalls => exact hcalls

/-- Without a handler the call returns the same, if it returns. -/
theorem returned_without_handler {lp64 : Bool} {args : Args} {format : CString}
    {count count' : Int32} {out out' : List Event}
    (h : ProcessFormatString ⟨lp64, true, args⟩ format (.returned count out))
    (h' : ProcessFormatString ⟨lp64, false, args⟩ format (.returned count' out')) :
    count' = count := by
  rcases @returns_inStep ⟨lp64, true, args⟩ rfl false _ _ _ (start_inStep format) h'
    with ⟨r, hr, hrel⟩
  cases h.unique hr
  cases hrel with
  | returned _ => rfl

/-- The count is right for the formats that both calls get through. -/
theorem counts_iff (lp64 : Bool) (args : Args) (format : CString) :
    Counts lp64 args format ↔ Good ⟨lp64, true, args⟩ 0 format.val ∧
      (NoString format → Good ⟨lp64, false, args⟩ 0 format.val) := by
  constructor
  · rintro ⟨count, out, hret, -, hwithout⟩
    refine ⟨(returned_start_iff _ format).mp ⟨count, out, hret⟩, fun hs => ?_⟩
    rcases hwithout hs with ⟨out', hret'⟩
    exact (returned_start_iff _ format).mp ⟨count, out', hret'⟩
  · rintro ⟨hgood, hwithout⟩
    rcases (returned_start_iff _ format).mpr hgood with ⟨count, out, hret⟩
    refine ⟨count, out, hret, returned_calls hret, fun hs => ?_⟩
    rcases (returned_start_iff _ format).mpr (hwithout hs) with ⟨count', out', hret'⟩
    rw [← returned_without_handler hret hret']
    exact ⟨out', hret'⟩

/-- The engine does not get through `%Lf`. -/
theorem not_counts_longDouble :
    Complete [0x25, 0x4C, 0x66] [0x66] ∧
      ¬ Counts true zeroConfig.args ⟨[0x25, 0x4C, 0x66], by decide⟩ := by
  refine ⟨@Complete.directive [0x4C] [] [] 0x66 (List.forall_mem_singleton.mpr (by decide)) (by decide)
    nofun .nil, ?_⟩
  rintro ⟨count, out, hret, -⟩
  have hstep : step zeroConfig (.outer ⟨.inside [0x25, 0x4C, 0x66], 0, 0, []⟩)
      = .inl (.inner {} ⟨.inside [0x4C, 0x66], 0, 0, []⟩) := rfl
  have hreturned : Returned zeroConfig (.outer ⟨.inside [0x25, 0x4C, 0x66], 0, 0, []⟩) :=
    ⟨count, out, hret⟩
  rw [returned_iff_of_step hstep] at hreturned
  exact not_returned_longDouble rfl rfl hreturned

end Xeos.Video.Printf
