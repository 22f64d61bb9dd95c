import Mathlib.Data.List.Basic
import Mathlib.Tactic.SplitIfs
import Xeos.Video.Printf

/-!
# The directives of a format

`scan` reads one directive of a format and `directives` all of them, without the
output.  Both give up at a directive that the format engine does not get through:
one with an `L`, and one that the end of the format cuts off.

`terminatesInside_iff` says that the engine returns exactly when the format is made of
directives that it gets through and the arguments of each of them fit.
-/

namespace Xeos.Video.Printf

open Lib

/-! ## The scanner -/

/-- A directive that has reached its conversion: the letter, the local variables
and the number of its argument. -/
structure Conversion where
  letter : UInt8
  directive : Directive
  ap : Nat

/-- The number of the first argument after the conversion. -/
def Conversion.nextAp (conv : Conversion) : Nat :=
  match classify conv.letter with
  | .char | .string | .integer | .real => conv.ap + 1
  | _ => conv.ap

theorem length_dropWhile_le (p : UInt8 → Bool) (l : List UInt8) :
    (l.dropWhile p).length ≤ l.length :=
  (List.dropWhile_sublist p).length_le

/-- Read the rest of a directive, up to its conversion.  The second part of the
result is the format after it. -/
def scan (cfg : Config) (d : Directive) (ap : Nat) (format : List UInt8) :
    Option (Conversion × List UInt8) :=
  match format with
  | [] => none
  | c :: rest =>
    match classify c with
    | .number => scan cfg d (ap + 1) rest
    | .digit =>
      scan cfg { d with minimumWidth := atoi (c :: rest) } ap (rest.dropWhile isdigit)
    | .star => scan cfg { d with minimumWidth := cfg.args.int ap } (ap + 1) rest
    | .period =>
      match rest with
      | [] => none
      | c' :: rest' =>
        if c' = 0x2A then scan cfg { d with precision := cfg.args.int ap } (ap + 1) rest'
        else if isdigit c' then
          scan cfg { d with precision := atoi (c' :: rest') } ap (rest'.dropWhile isdigit)
        else scan cfg { d with precision := 0 } ap (c' :: rest')
    | .longDouble => none
    | .char | .string | .integer | .real | .other => some (⟨c, d, ap⟩, rest)
    | t => scan cfg (d.setFlag cfg t) ap rest
termination_by format.length
decreasing_by
  all_goals simp only [List.length_cons]
  all_goals first
    | omega
    | exact Nat.lt_succ_of_le (length_dropWhile_le isdigit rest)
    | exact Nat.lt_of_le_of_lt (length_dropWhile_le isdigit rest') (by omega)

/-- A directive takes at least one character, and leaves the end of the format. -/
theorem scan_suffix {cfg : Config} {d : Directive} {ap : Nat} {format rest : List UInt8}
    {conv : Conversion} (h : scan cfg d ap format = some (conv, rest)) :
    rest <:+ format ∧ rest.length < format.length := by
  have hcons : ∀ {c : UInt8} {l l' : List UInt8}, l <:+ l' → rest <:+ l ∧ rest.length < l.length →
      rest <:+ c :: l' ∧ rest.length < (c :: l').length := by
    intro c l l' hl hrest
    have hle := hl.length_le
    refine ⟨(hrest.1.trans hl).trans (List.suffix_cons c l'), ?_⟩
    rw [List.length_cons]
    omega
  fun_induction scan cfg d ap format with
  | case1 => cases h
  | case2 d ap c format hc ih => exact hcons List.suffix_rfl (ih h)
  | case3 d ap c format hc ih => exact hcons (List.dropWhile_suffix _) (ih h)
  | case4 d ap c format hc ih => exact hcons List.suffix_rfl (ih h)
  | case5 => cases h
  | case6 d ap c hc format ih => exact hcons (List.suffix_cons _ _) (ih h)
  | case7 d ap c hc c' format hne hdigit ih =>
    exact hcons ((List.dropWhile_suffix _).trans (List.suffix_cons _ _)) (ih h)
  | case8 d ap c hc c' format hne hdigit ih => exact hcons List.suffix_rfl (ih h)
  | case9 => cases h
  | case15 d ap c format _ _ _ _ _ _ _ _ _ _ ih => exact hcons List.suffix_rfl (ih h)
  | _ =>
    obtain ⟨rfl, rfl⟩ := Prod.mk.inj (Option.some.inj h)
    exact ⟨List.suffix_cons _ _, by rw [List.length_cons]; omega⟩

theorem isdigit_of_classify {c : UInt8} (h : classify c = .digit) : isdigit c = true := by
  by_contra hnot
  have hrange : ¬ (0x31 ≤ c ∧ c ≤ 0x39) := by
    intro hc
    have h31 := UInt8.le_iff_toNat_le.mp hc.1
    have h30 : 0x30 ≤ c := UInt8.le_iff_toNat_le.mpr (Nat.le_trans (by decide) h31)
    exact hnot (decide_eq_true ⟨h30, hc.2⟩)
  have hite : ∀ {p : Prop} [Decidable p] {a b : Token}, a ≠ .digit → b ≠ .digit →
      (if p then a else b) ≠ .digit := by
    intro p _ a b ha hb
    by_cases hp : p
    · rwa [if_pos hp]
    · rwa [if_neg hp]
  revert h
  unfold classify
  rw [if_neg hrange]
  change _ ≠ Token.digit
  repeat' apply hite
  all_goals nofun

/-- All directives of a format. -/
def directives (cfg : Config) (ap : Nat) (format : List UInt8) : Option (List Conversion) :=
  match format with
  | [] => some []
  | c :: rest =>
    if c ≠ 0x25 then directives cfg ap rest
    else if rest.head? = some 0x25 then directives cfg ap rest.tail
    else
      match _hscan : scan cfg {} ap rest with
      | none => none
      | some (conv, rest') => (directives cfg conv.nextAp rest').map (conv :: ·)
termination_by format.length
decreasing_by
  · rw [List.length_cons]
    omega
  · rw [List.length_cons, List.length_tail]
    omega
  · have hlen := (scan_suffix _hscan).2
    rw [List.length_cons]
    omega

/-- The arguments of a conversion suit the engine.  Without a handler the loop over
a string does not advance.  A field of an integer has to leave room for the NUL in
the buffer of the digits. -/
structure Fits (cfg : Config) (conv : Conversion) : Prop where
  string : classify conv.letter = .string →
    cfg.handler = true ∨ (cfg.args.string conv.ap).map Subtype.val = some []
  integer : classify conv.letter = .integer → conv.directive.minimumWidth.toInt < bufferSize

/-- The format consists of directives that the engine gets through, with arguments
that fit. -/
def Good (cfg : Config) (ap : Nat) (format : List UInt8) : Prop :=
  ∃ convs, directives cfg ap format = some convs ∧ ∀ conv ∈ convs, Fits cfg conv

section Good

variable {cfg : Config} {ap : Nat}

theorem good_nil : Good cfg ap [] := by
  refine ⟨[], ?_, ?_⟩
  · unfold directives
    rfl
  · intro conv hconv
    cases hconv

theorem good_char_iff {c : UInt8} {rest : List UInt8} (hc : c ≠ 0x25) :
    Good cfg ap (c :: rest) ↔ Good cfg ap rest := by
  have heq : directives cfg ap (c :: rest) = directives cfg ap rest := by
    rw [directives, if_pos hc]
  unfold Good
  rw [heq]

theorem good_percent_iff {rest : List UInt8} :
    Good cfg ap (0x25 :: 0x25 :: rest) ↔ Good cfg ap rest := by
  have heq : directives cfg ap (0x25 :: 0x25 :: rest) = directives cfg ap rest := by
    rw [directives, if_neg (not_not.mpr rfl), if_pos (List.head?_cons), List.tail_cons]
  unfold Good
  rw [heq]

theorem good_directive_iff {rest : List UInt8} (hhead : rest.head? ≠ some 0x25) :
    Good cfg ap (0x25 :: rest) ↔ ∃ conv rest', scan cfg {} ap rest = some (conv, rest') ∧
      Fits cfg conv ∧ Good cfg conv.nextAp rest' := by
  unfold Good
  rw [directives, if_neg (not_not.mpr rfl), if_neg hhead]
  split
  · next hscan =>
    rw [hscan]
    constructor
    · intro h
      obtain ⟨convs, hconvs, _⟩ := h
      cases hconvs
    · intro h
      obtain ⟨conv, rest', hnone, _⟩ := h
      cases hnone
  · next conv rest' hscan =>
    constructor
    · intro h
      obtain ⟨convs, hconvs, hfits⟩ := h
      obtain ⟨tail, htail, rfl⟩ := Option.map_eq_some_iff.mp hconvs
      refine ⟨conv, rest', hscan, hfits conv List.mem_cons_self, tail, htail, ?_⟩
      intro conv' hconv'
      exact hfits conv' (List.mem_cons_of_mem conv hconv')
    · intro h
      obtain ⟨conv', rest'', hscan', hfit, tail, htail, hfits⟩ := h
      obtain ⟨rfl, rfl⟩ := Prod.mk.inj (Option.some.inj (hscan.symm.trans hscan'))
      refine ⟨conv :: tail, Option.map_eq_some_iff.mpr ⟨tail, htail, rfl⟩, ?_⟩
      intro conv' hconv'
      cases List.mem_cons.mp hconv' with
      | inl heq => exact heq ▸ hfit
      | inr hmem => exact hfits conv' hmem

end Good

/-! ## What the output leaves alone -/

section Output

variable (cfg : Config)

@[simp] theorem Engine.put_format (c : UInt8) (s : Engine) : (s.put cfg c).format = s.format := rfl

@[simp] theorem Engine.put_ap (c : UInt8) (s : Engine) : (s.put cfg c).ap = s.ap := rfl

@[simp] theorem Engine.puts_format (cs : List UInt8) (s : Engine) :
    (s.puts cfg cs).format = s.format := by
  induction cs generalizing s with
  | nil => rfl
  | cons c cs ih => exact (ih (s.put cfg c)).trans rfl

@[simp] theorem Engine.puts_ap (cs : List UInt8) (s : Engine) : (s.puts cfg cs).ap = s.ap := by
  induction cs generalizing s with
  | nil => rfl
  | cons c cs ih => exact (ih (s.put cfg c)).trans rfl

theorem convertChar_format (d : Directive) (s : Engine) :
    (convertChar cfg d s).format = s.format.next ∧ (convertChar cfg d s).ap = s.ap + 1 := by
  unfold convertChar
  cases d.align with
  | false => simp
  | true => simp

theorem endString_format (d : Directive) (len : Nat) (s : Engine) :
    (endString cfg d len s).format = s.format.next ∧ (endString cfg d len s).ap = s.ap := by
  unfold endString
  simp only
  split <;> simp

theorem putSign_format (d : Directive) (v : Number) (s : Engine) :
    (putSign cfg d v s).2.format = s.format ∧ (putSign cfg d v s).2.ap = s.ap := by
  unfold putSign
  simp only
  split_ifs <;> exact ⟨rfl, rfl⟩

theorem putSharp_format (v : Number) (n : UInt64) (s : Engine) :
    (putSharp cfg v n s).format = s.format ∧ (putSharp cfg v n s).ap = s.ap := by
  unfold putSharp
  split
  · split_ifs <;> exact ⟨rfl, rfl⟩
  · split_ifs <;> exact ⟨rfl, rfl⟩
  · exact ⟨rfl, rfl⟩

end Output

/-! ## The buffer of the digits -/

theorem Radix.eight_le (radix : Radix) : 8 ≤ radix.toNat := by
  cases radix <;> decide

theorem digits_length_le (radix : Radix) (t : Nat) {n k : Nat} (buf : List UInt8)
    (hk : 0 < k) (h : n < radix.toNat ^ k) :
    (digits radix t n buf).length ≤ buf.length + k := by
  have hradix := radix.eight_le
  induction k generalizing n buf with
  | zero => omega
  | succ k ih =>
    unfold digits
    split
    · rw [List.length_cons]
      omega
    · next hne =>
      have hdiv : n / radix.toNat < radix.toNat ^ k := by
        rw [Nat.div_lt_iff_lt_mul (by omega), ← Nat.pow_succ]
        exact h
      have hk' : 0 < k := by
        rcases Nat.eq_zero_or_pos k with rfl | hpos
        · exact absurd (Nat.lt_one_iff.mp hdiv) hne
        · exact hpos
      have hlen := ih (digitChar t (n % radix.toNat) :: buf) hk' hdiv
      rw [List.length_cons] at hlen
      omega

/-- The digits of any number fit, so the width alone decides. -/
theorem bufferSize_le_iff (d : Directive) (radix : Radix) (t : Nat) (n : UInt64) :
    bufferSize ≤ (padDigits d (digits radix t n.toNat [])).length
      ↔ (bufferSize : Int) ≤ d.minimumWidth.toInt := by
  have hn : n.toNat < radix.toNat ^ 22 := by
    have h8 : 8 ^ 22 ≤ radix.toNat ^ 22 := Nat.pow_le_pow_left radix.eight_le 22
    have hlt := n.toNat_lt
    omega
  have hlen := digits_length_le radix t [] (show 0 < 22 by omega) hn
  rw [List.length_nil] at hlen
  have htotal : (padDigits d (digits radix t n.toNat [])).length
      = (digits radix t n.toNat []).length
        + (d.minimumWidth.toInt - (digits radix t n.toNat []).length).toNat := by
    unfold padDigits
    simp only
    split
    · rw [List.length_append, List.length_replicate]
    · rw [List.length_append, List.length_replicate, Nat.add_comm]
  rw [htotal]
  unfold bufferSize
  omega

theorem convertInteger_eq_none_iff (cfg : Config) (c : UInt8) (d : Directive) (s : Engine) :
    convertInteger cfg c d s = none ↔ (bufferSize : Int) ≤ d.minimumWidth.toInt := by
  unfold convertInteger
  simp only
  rw [← bufferSize_le_iff d (radixOf (fetch cfg d (normalizeType (typeBits c)) s.ap).intType)
    (fetch cfg d (normalizeType (typeBits c)) s.ap).intType
    (putSign cfg d (fetch cfg d (normalizeType (typeBits c)) s.ap)
      { s with ap := s.ap + 1 }).1]
  split
  · next h => exact ⟨fun _ => h, fun _ => rfl⟩
  · next h => exact ⟨nofun, fun hle => absurd hle h⟩

theorem convertInteger_format {cfg : Config} {c : UInt8} {d : Directive} {s s' : Engine}
    (h : convertInteger cfg c d s = some s') :
    s'.format = s.format.next ∧ s'.ap = s.ap + 1 := by
  unfold convertInteger at h
  simp only at h
  split at h
  · cases h
  · have hs := Option.some.inj h
    rw [← hs]
    simp [putSharp_format, putSign_format]

/-! ## The steps of the machine -/

section Step

variable {cfg : Config} {s : Engine} {c : UInt8} {rest : List UInt8}

/-- A character that is not part of a directive. -/
theorem step_outer_char (hs : s.format = .inside (c :: rest)) (hc0 : c ≠ 0) (hc : c ≠ 0x25) :
    step cfg (.outer s) = .inl (.outer { s.put cfg c with format := .inside rest }) := by
  simp only [step, hs, Cursor.read, Cursor.next, hc0, if_false, ne_eq, hc, not_false_eq_true,
    if_true]

/-- `%%` -/
theorem step_outer_percent (hs : s.format = .inside (0x25 :: 0x25 :: rest)) :
    step cfg (.outer s) = .inl (.outer { s.put cfg 0x25 with format := .inside rest }) := by
  have hread : (Cursor.inside (0x25 :: 0x25 :: rest)).read = some 0x25 := rfl
  have hnext : (Cursor.inside (0x25 :: 0x25 :: rest)).next = .inside (0x25 :: rest) := rfl
  have hread' : (Cursor.inside (0x25 :: rest)).read = some 0x25 := rfl
  have hc0 : (0x25 : UInt8) ≠ 0 := by decide
  simp only [step, hs, hread, hnext, hread', hc0, if_false, ne_eq, not_true, if_true]
  rfl

/-- The start of a directive. -/
theorem step_outer_directive (hs : s.format = .inside (0x25 :: rest))
    (hhead : rest.head? ≠ some 0x25) :
    step cfg (.outer s) = .inl (.inner {} { s with format := .inside rest }) := by
  have hread : (Cursor.inside (0x25 :: rest)).read = some 0x25 := rfl
  have hnext : (Cursor.inside (0x25 :: rest)).next = .inside rest := rfl
  have hread' : (Cursor.inside rest).read ≠ some 0x25 := by
    cases rest with
    | nil => exact fun h => absurd (Option.some.inj h) (by decide)
    | cons c' rest' => exact hhead
  have hc0 : (0x25 : UInt8) ≠ 0 := by decide
  simp only [step, hs, hread, hnext, hread', hc0, if_false, ne_eq, not_true]

theorem step_inner {d : Directive} (hs : s.format = .inside (c :: rest)) :
    step cfg (.inner d s) = stepInner cfg c d s := by
  simp only [step, hs, Cursor.read]

/-- The end of the format is consumed as an unknown directive. -/
theorem step_inner_nil {d : Directive} (hs : s.format = .inside []) :
    step cfg (.inner d s) = .inl (.outer { s with format := .past }) := by
  have h0 : classify 0 = .other := by decide
  simp only [step, hs, Cursor.read, stepInner, h0, Cursor.next]

end Step

/-- The letters that end a directive. -/
def conversionTokens : List Token := [.char, .string, .integer, .real, .other]

/-- What the loop over a directive comes to, as the scanner says, for a property `R` of the
machine: the conversion, the place behind the end of the format, or an `L`. -/
inductive Scanned (cfg : Config) (R : Phase → Prop) (φ : Phase) :
    Option (Conversion × List UInt8) → Prop
  | conversion {conv : Conversion} {rest : List UInt8} {s : Engine}
      (hletter : classify conv.letter ∈ conversionTokens)
      (hformat : s.format = .inside (conv.letter :: rest)) (hap : s.ap = conv.ap)
      (h : R φ ↔ R (.inner conv.directive s)) : Scanned cfg R φ (some (conv, rest))
  | cutOff {s : Engine} (hformat : s.format = .past) (h : R φ ↔ R (.outer s)) :
      Scanned cfg R φ none
  | longDouble {d : Directive} {s : Engine} {c : UInt8} (hread : s.format.read = some c)
      (hc : classify c = .longDouble) (h : R φ ↔ R (.inner d s)) : Scanned cfg R φ none

section Scan

variable {cfg : Config} {R : Phase → Prop} {φ φ' : Phase}

theorem Scanned.of_iff (h : R φ ↔ R φ') {o : Option (Conversion × List UInt8)}
    (hs : Scanned cfg R φ' o) : Scanned cfg R φ o := by
  cases hs with
  | conversion hletter hformat hap h' => exact .conversion hletter hformat hap (h.trans h')
  | cutOff hformat h' => exact .cutOff hformat (h.trans h')
  | longDouble hread hc h' => exact .longDouble hread hc (h.trans h')

/-- The loop over a directive follows the scanner, when `R` passes every step that is not an
integer conversion. -/
theorem scan_spec
    (hR : ∀ d s φ', (∀ c, s.format.read = some c → classify c ≠ .integer) →
      step cfg (.inner d s) = .inl φ' → (R (.inner d s) ↔ R φ'))
    (d : Directive) (ap : Nat) (format : List UInt8) (s : Engine) (hs : s.format = .inside format)
    (hap : s.ap = ap) : Scanned cfg R (.inner d s) (scan cfg d ap format) := by
  have hnext : ∀ {c : UInt8} {rest : List UInt8} {t : Engine} {e : Directive} {φ' : Phase},
      t.format = .inside (c :: rest) → classify c ≠ .integer →
        stepInner cfg c e t = .inl φ' → (R (.inner e t) ↔ R φ') := by
    intro c rest t e φ' ht hc hstep
    refine hR e t φ' (fun c' hc' => ?_) ((step_inner ht).trans hstep)
    rw [ht] at hc'
    rw [← Option.some.inj hc']
    exact hc
  have hend : ∀ {t : Engine} {e : Directive}, t.format = .inside [] →
      Scanned cfg R (.inner e t) none := by
    intro t e ht
    refine .cutOff (s := { t with format := .past }) rfl (hR e t _ (fun c hc => ?_)
      (step_inner_nil ht))
    rw [ht] at hc
    rw [← Option.some.inj hc]
    decide
  fun_induction scan cfg d ap format generalizing s with
  | case1 d ap => exact hend hs
  | case2 d ap c rest hc ih =>
    refine .of_iff (hnext hs (by simp [hc]) ?_)
      (ih { s with
        out := s.out ++ [.store (cfg.args.pointer s.ap) s.count]
        ap := s.ap + 1
        format := .inside rest } rfl (congrArg (· + 1) hap))
    simp only [stepInner, hc, hs, Cursor.next]
  | case3 d ap c rest hc ih =>
    refine .of_iff (hnext hs (by simp [hc]) ?_)
      (ih { s with format := .inside (rest.dropWhile isdigit) } rfl hap)
    have hdigit := isdigit_of_classify hc
    simp only [stepInner, hc, hs, Cursor.skipDigits, List.dropWhile_cons, hdigit, if_true]
  | case4 d ap c rest hc ih =>
    refine .of_iff (hnext hs (by simp [hc]) ?_)
      (ih { s with ap := ap + 1, format := .inside rest } rfl rfl)
    simp only [stepInner, hc, hs, Cursor.next, hap]
  | case5 d ap c hc =>
    refine .of_iff (hnext hs (by simp [hc]) ?_)
      (hend (t := { s with format := .inside [] }) (e := { d with precision := 0 }) rfl)
    simp only [stepInner, hc, stepPrecision, hs, Cursor.next]
  | case6 d ap c hc rest ih =>
    refine .of_iff (hnext hs (by simp [hc]) ?_)
      (ih { s with format := .inside rest, ap := ap + 1 } rfl rfl)
    simp only [stepInner, hc, stepPrecision, hs, Cursor.next, if_true, hap]
  | case7 d ap c hc c' rest hne hdigit ih =>
    refine .of_iff (hnext hs (by simp [hc]) ?_)
      (ih { s with format := .inside (rest.dropWhile isdigit) } rfl hap)
    simp only [stepInner, hc, stepPrecision, hs, Cursor.next, hne, if_false, hdigit, if_true,
      Cursor.skipDigits, List.dropWhile_cons]
  | case8 d ap c hc c' rest hne hdigit ih =>
    refine .of_iff (hnext hs (by simp [hc]) ?_)
      (ih { s with format := .inside (c' :: rest) } rfl hap)
    simp only [stepInner, hc, stepPrecision, hs, Cursor.next, hne, if_false, hdigit,
      Bool.false_eq_true]
  | case9 d ap c rest hc =>
    refine .longDouble (d := d) (s := s) (c := c) ?_ hc Iff.rfl
    rw [hs]
    rfl
  | case15 d ap c rest h1 h2 h3 h4 h5 h6 h7 h8 h9 h10 ih =>
    have hflag : stepInner cfg c d s
        = .inl (.inner (d.setFlag cfg (classify c)) { s with format := s.format.next }) := by
      unfold stepInner
      split <;> first | rfl | contradiction
    rw [hs, Cursor.next] at hflag
    exact .of_iff (hnext hs h8 hflag) (ih _ rfl hap)
  | _ =>
    rename_i d ap c rest hc
    have hletter : classify (Conversion.mk c d ap).letter ∈ conversionTokens := by
      simp [hc, conversionTokens]
    exact .conversion hletter hs hap Iff.rfl

end Scan

/-! ## What the engine returns from -/

/-- The engine returns from the phase. -/
def Returned (cfg : Config) (φ : Phase) : Prop :=
  ∃ count out, Returns (step cfg) φ (.returned count out)

section Returned

variable {cfg : Config} {φ φ' : Phase}

theorem returned_iff_of_step (h : step cfg φ = .inl φ') : Returned cfg φ ↔ Returned cfg φ' := by
  unfold Returned
  simp only [returns_iff_of_step h]

theorem not_returned_of_overread (h : step cfg φ = .inr .overread) : ¬ Returned cfg φ := by
  intro hret
  obtain ⟨count, out, hr⟩ := hret
  exact nomatch (returns_iff_of_done h).mp hr

theorem not_returned_of_overflow (h : step cfg φ = .inr .overflow) : ¬ Returned cfg φ := by
  intro hret
  obtain ⟨count, out, hr⟩ := hret
  exact nomatch (returns_iff_of_done h).mp hr

theorem not_returned_past {s : Engine} (h : s.format = .past) : ¬ Returned cfg (.outer s) := by
  apply not_returned_of_overread
  simp only [step, h, Cursor.read]

theorem returned_nil {s : Engine} (h : s.format = .inside []) : Returned cfg (.outer s) := by
  refine ⟨s.count, s.out, Returns.done ?_⟩
  simp only [step, h, Cursor.read, if_true]

/-- The loop over a string passes its characters to the handler. -/
theorem returned_string_iff (hhandler : cfg.handler = true) (d : Directive) (len : Nat)
    (bytes : List UInt8) (s : Engine) :
    Returned cfg (.string d len bytes s)
      ↔ Returned cfg (.outer (endString cfg d len (s.puts cfg bytes))) := by
  induction bytes generalizing s with
  | nil => exact returned_iff_of_step rfl
  | cons c rest ih =>
    have hstep : step cfg (.string d len (c :: rest) s) = .inl (.string d len rest (s.put cfg c)) := by
      simp only [step, hhandler, if_true]
    rw [returned_iff_of_step hstep, ih]
    rfl

/-- Without a handler it stays at the first character. -/
theorem not_returned_string (hhandler : cfg.handler = false) (d : Directive) (len : Nat)
    (c : UInt8) (rest : List UInt8) (s : Engine) :
    ¬ Returned cfg (.string d len (c :: rest) s) := by
  intro hret
  obtain ⟨count, out, hr⟩ := hret
  refine not_returns_of_invariant (fun φ => ∃ s, φ = .string d len (c :: rest) s) ?_ ⟨s, rfl⟩ hr
  intro φ hφ
  obtain ⟨t, rfl⟩ := hφ
  refine ⟨.string d len (c :: rest) (t.put cfg c), ?_, t.put cfg c, rfl⟩
  simp only [step, hhandler, Bool.false_eq_true, if_false]

/-- An `L` holds the loop over the directive for ever. -/
theorem not_returned_longDouble {d : Directive} {s : Engine} {c : UInt8}
    (hread : s.format.read = some c) (hc : classify c = .longDouble) :
    ¬ Returned cfg (.inner d s) := by
  intro hret
  obtain ⟨count, out, hr⟩ := hret
  refine not_returns_of_invariant (fun φ => φ = .inner d s) ?_ rfl hr
  intro φ hφ
  refine ⟨.inner d s, ?_, rfl⟩
  rw [hφ]
  simp only [step, hread, stepInner, hc]

theorem startString_eq (cfg : Config) (d : Directive) (s : Engine) :
    ∃ len s', startString cfg d s
        = .string d len (((cfg.args.string s.ap).map Subtype.val).getD nullText) s' ∧
      s'.format = s.format ∧ s'.ap = s.ap + 1 := by
  unfold startString
  simp only
  split_ifs
  · exact ⟨_, _, rfl, by simp, by simp⟩
  · exact ⟨_, _, rfl, rfl, rfl⟩

/-- A string conversion returns with a handler, or for the empty string, and then
as the format after it does. -/
theorem returned_startString_iff (d : Directive) (s : Engine) (G : Prop)
    (hrest : ∀ s' : Engine, s'.format = s.format.next → s'.ap = s.ap + 1 →
      (Returned cfg (.outer s') ↔ G)) :
    Returned cfg (startString cfg d s) ↔
      (cfg.handler = true ∨ (cfg.args.string s.ap).map Subtype.val = some []) ∧ G := by
  obtain ⟨len, s1, heq, hformat, hap⟩ := startString_eq cfg d s
  rw [heq]
  have hend : ∀ t : Engine, t.format = s1.format → t.ap = s1.ap →
      (Returned cfg (.outer (endString cfg d len t)) ↔ G) := by
    intro t hf ha
    apply hrest
    · rw [(endString_format cfg d len t).1, hf, hformat]
    · rw [(endString_format cfg d len t).2, ha, hap]
  cases hh : cfg.handler with
  | true =>
    rw [returned_string_iff hh, hend _ (by simp) (by simp)]
    simp
  | false =>
    cases hbytes : ((cfg.args.string s.ap).map Subtype.val).getD nullText with
    | nil =>
      have hempty : (cfg.args.string s.ap).map Subtype.val = some [] := by
        cases harg : (cfg.args.string s.ap).map Subtype.val with
        | none =>
          rw [harg, Option.getD_none] at hbytes
          exact absurd hbytes (by decide)
        | some bytes =>
          rw [harg, Option.getD_some] at hbytes
          rw [hbytes]
      have hstep : step cfg (.string d len [] s1) = .inl (.outer (endString cfg d len s1)) := rfl
      rw [returned_iff_of_step hstep, hend s1 rfl rfl, hempty]
      simp
    | cons c rest =>
      have hne : (cfg.args.string s.ap).map Subtype.val ≠ some [] := by
        intro hempty
        rw [hempty] at hbytes
        exact nomatch hbytes
      have hnot := not_returned_string hh d len c rest s1
      simp [hnot, hne]

/-- The conversion of a directive: it returns when its argument fits, and then as
the format after it does. -/
theorem returned_conversion_iff {c : UInt8} {rest : List UInt8} (d : Directive) (s : Engine)
    (hs : s.format = .inside (c :: rest)) (G : Prop)
    (hc : classify c ∈ conversionTokens)
    (hrest : ∀ s' : Engine, s'.format = .inside rest →
      s'.ap = (Conversion.mk c d s.ap).nextAp → (Returned cfg (.outer s') ↔ G)) :
    Returned cfg (.inner d s) ↔ Fits cfg ⟨c, d, s.ap⟩ ∧ G := by
  have hnext : s.format.next = .inside rest := by rw [hs]; rfl
  have hread : s.format.read = some c := by rw [hs]; rfl
  have hstep : step cfg (.inner d s) = stepInner cfg c d s := by
    simp only [step, hread]
  unfold Conversion.nextAp at hrest
  have hfits : classify c ≠ .string → classify c ≠ .integer → Fits cfg ⟨c, d, s.ap⟩ :=
    fun h1 h2 => ⟨fun h => absurd h h1, fun h => absurd h h2⟩
  cases ht : classify c with
  | char =>
    simp only [stepInner, ht] at hstep hrest
    have hfmt := convertChar_format cfg d s
    rw [returned_iff_of_step hstep, hrest _ (hfmt.1.trans hnext) hfmt.2]
    exact (and_iff_right (hfits (by simp [ht]) (by simp [ht]))).symm
  | string =>
    simp only [stepInner, ht] at hstep hrest
    rw [returned_iff_of_step hstep, returned_startString_iff d s G
      (fun s' hf ha => hrest s' (hf.trans hnext) ha)]
    constructor
    · intro h
      exact ⟨⟨fun _ => h.1, fun h' => by simp [ht] at h'⟩, h.2⟩
    · intro h
      exact ⟨h.1.string ht, h.2⟩
  | integer =>
    simp only [stepInner, ht] at hstep hrest
    cases hconv : convertInteger cfg c d s with
    | none =>
      rw [hconv] at hstep
      have hwide := (convertInteger_eq_none_iff cfg c d s).mp hconv
      constructor
      · intro h
        exact absurd h (not_returned_of_overflow hstep)
      · intro h
        have hlt := h.1.integer ht
        simp only at hlt
        omega
    | some s' =>
      rw [hconv] at hstep
      have hfmt := convertInteger_format hconv
      have hlt : d.minimumWidth.toInt < bufferSize := by
        have hne : convertInteger cfg c d s ≠ none := by
          rw [hconv]
          simp
        rw [Ne, convertInteger_eq_none_iff] at hne
        omega
      rw [returned_iff_of_step hstep, hrest _ (hfmt.1.trans hnext) hfmt.2]
      refine (and_iff_right ⟨?_, fun _ => hlt⟩).symm
      intro h
      simp [ht] at h
  | real =>
    simp only [stepInner, ht] at hstep hrest
    rw [returned_iff_of_step hstep, hrest _ hnext rfl]
    exact (and_iff_right (hfits (by simp [ht]) (by simp [ht]))).symm
  | other =>
    simp only [stepInner, ht] at hstep hrest
    rw [returned_iff_of_step hstep, hrest { s with format := s.format.next } hnext rfl]
    exact (and_iff_right (hfits (by simp [ht]) (by simp [ht]))).symm
  | _ => simp [ht, conversionTokens] at hc

/-- The loop over a directive returns as the scanner says. -/
theorem returned_inner_iff {bound : Nat}
    (houter : ∀ (s : Engine) (rest : List UInt8), rest.length < bound → 0 ∉ rest →
      s.format = .inside rest → (Returned cfg (.outer s) ↔ Good cfg s.ap rest))
    (d : Directive) (ap : Nat) (format : List UInt8) (s : Engine) (hlen : format.length ≤ bound)
    (hnul : 0 ∉ format) (hs : s.format = .inside format) (hap : s.ap = ap) :
    Returned cfg (.inner d s) ↔ ∃ conv rest, scan cfg d ap format = some (conv, rest) ∧
      Fits cfg conv ∧ Good cfg conv.nextAp rest := by
  have hscanned : Scanned cfg (Returned cfg) (.inner d s) (scan cfg d ap format) :=
    scan_spec (fun _ _ _ _ hstep => returned_iff_of_step hstep) d ap format s hs hap
  cases hscan : scan cfg d ap format with
  | none =>
    have hnot : ¬ Returned cfg (.inner d s) := by
      rw [hscan] at hscanned
      cases hscanned with
      | cutOff hformat h => exact fun hret => not_returned_past hformat (h.mp hret)
      | longDouble hread hc h => exact fun hret => not_returned_longDouble hread hc (h.mp hret)
    refine iff_of_false hnot ?_
    intro h
    obtain ⟨conv, rest, hsome, _⟩ := h
    cases hsome
  | some result =>
    obtain ⟨conv, rest⟩ := result
    rw [hscan] at hscanned
    cases hscanned with
    | conversion hletter hformat hap' h =>
      rename_i s'
      have hsuffix := scan_suffix hscan
      have hconv := returned_conversion_iff conv.directive s' hformat (Good cfg conv.nextAp rest)
        hletter (by
          intro t ht hat
          rw [hap'] at hat
          rw [houter t rest (by omega) (fun hm => hnul (hsuffix.1.subset hm)) ht, hat])
      rw [h, hconv, hap']
      constructor
      · intro hfits
        exact ⟨conv, rest, rfl, hfits⟩
      · intro hex
        obtain ⟨conv', rest', heq, hfits⟩ := hex
        obtain ⟨rfl, rfl⟩ := Prod.mk.inj (Option.some.inj heq)
        exact hfits

/-- The outer loop, by induction on what is left of the format. -/
theorem returned_outer_iff {bound : Nat} (s : Engine) (rest : List UInt8)
    (hlen : rest.length < bound) (hnul : 0 ∉ rest) (hs : s.format = .inside rest) :
    Returned cfg (.outer s) ↔ Good cfg s.ap rest := by
  induction bound generalizing s rest with
  | zero => omega
  | succ bound ih =>
    cases rest with
    | nil => exact iff_of_true (returned_nil hs) good_nil
    | cons c rest =>
      have hc0 : c ≠ 0 := fun h => hnul (h ▸ List.mem_cons_self)
      have hnul' : 0 ∉ rest := fun h => hnul (List.mem_cons_of_mem c h)
      rw [List.length_cons] at hlen
      by_cases hc : c = 0x25
      · subst hc
        by_cases hhead : rest.head? = some 0x25
        · -- `%%`
          obtain ⟨rest', rfl⟩ := List.head?_eq_some_iff.mp hhead
          rw [returned_iff_of_step (step_outer_percent hs), good_percent_iff]
          rw [List.length_cons] at hlen
          exact ih _ rest' (by omega) (fun h => hnul' (List.mem_cons_of_mem _ h)) rfl
        · rw [returned_iff_of_step (step_outer_directive hs hhead), good_directive_iff hhead]
          exact returned_inner_iff (fun s' rest' hlt => ih s' rest' hlt) {} s.ap rest _ (by omega)
            hnul' rfl rfl
      · rw [returned_iff_of_step (step_outer_char hs hc0 hc), good_char_iff hc]
        exact ih _ rest (by omega) hnul' rfl

/-- The engine returns from exactly the formats and arguments that are good. -/
theorem returned_start_iff (cfg : Config) (format : CString) :
    Returned cfg (start format) ↔ Good cfg 0 format.val :=
  returned_outer_iff _ format.val (Nat.lt_succ_self _) format.property rfl

end Returned

/-! ## Termination -/

/-- The engine returns, and has read no byte behind the NUL of the format. -/
def TerminatesInside (cfg : Config) (format : CString) : Prop :=
  ∃ count out, ProcessFormatString cfg format (.returned count out)

/-- The engine returns from exactly the formats and arguments that are good. -/
theorem terminatesInside_iff (cfg : Config) (format : CString) :
    TerminatesInside cfg format ↔ Good cfg 0 format.val :=
  returned_start_iff cfg format

/-- A handler, and arguments that are zero. -/
def zeroConfig : Config where
  lp64 := true
  handler := true
  args := ⟨fun _ => 0, fun _ => 0, fun _ => 0, fun _ => none⟩

/-- It does not get through `%L`, and reads behind the NUL of a lone `%`. -/
theorem not_terminatesInside_percent :
    ¬ TerminatesInside zeroConfig ⟨[0x25, 0x4C], by decide⟩ ∧
    ¬ TerminatesInside zeroConfig ⟨[0x25], by decide⟩ := by
  constructor
  · intro h
    change Returned zeroConfig (.outer ⟨.inside [0x25, 0x4C], 0, 0, []⟩) at h
    have hstep : step zeroConfig (.outer ⟨.inside [0x25, 0x4C], 0, 0, []⟩)
        = .inl (.inner {} ⟨.inside [0x4C], 0, 0, []⟩) := rfl
    rw [returned_iff_of_step hstep] at h
    exact not_returned_longDouble rfl rfl h
  · intro h
    change Returned zeroConfig (.outer ⟨.inside [0x25], 0, 0, []⟩) at h
    have hstep : step zeroConfig (.outer ⟨.inside [0x25], 0, 0, []⟩)
        = .inl (.inner {} ⟨.inside [], 0, 0, []⟩) := rfl
    have hstep' : step zeroConfig (.inner {} ⟨.inside [], 0, 0, []⟩)
        = .inl (.outer ⟨.past, 0, 0, []⟩) := rfl
    rw [returned_iff_of_step hstep, returned_iff_of_step hstep'] at h
    exact not_returned_past rfl h

end Xeos.Video.Printf
