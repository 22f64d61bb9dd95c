import Xeos.Video.Compose

/-!
# Formats of complete directives

A format of complete directives should compose with any text after it.  `%n` is the
directive for which this goes wrong.  Its case does not end the loop over the directive, so
the engine takes the text after it for the rest of the directive, and a `%n` at the end of a
format makes it run behind the end.
-/

namespace Xeos.Video.Printf

open Lib

/-- A flag, a part of the width or of the precision, or a length. -/
def isModifier (c : UInt8) : Bool :=
  classify c ∈ [Token.minus, .plus, .space, .zero, .sharp, .digit, .star, .period, .half, .long,
    .longDouble]

/-- The format consists of complete directives, with these letters, and of other
characters. -/
inductive Complete : List UInt8 → List UInt8 → Prop
  | nil : Complete [] []
  | char {c : UInt8} {rest letters : List UInt8} (hc : c ≠ 0x25) (h : Complete rest letters) :
      Complete (c :: rest) letters
  | percent {rest letters : List UInt8} (h : Complete rest letters) :
      Complete (0x25 :: 0x25 :: rest) letters
  | directive {mods rest letters : List UInt8} {letter : UInt8}
      (hmods : ∀ c ∈ mods, isModifier c = true) (hletter : isModifier letter = false)
      (hne : mods = [] → letter ≠ 0x25) (h : Complete rest letters) :
      Complete (0x25 :: (mods ++ letter :: rest)) (letter :: letters)

/-- Formatting is compositional at the end of every complete part of the format, so also
behind each of its `%n`. -/
def Compositional (cfg : Config) (format : CString) : Prop :=
  ∀ (part : CString) (letters : List UInt8), part.val <+: format.val →
    Complete part.val letters → Composes cfg part

/-! ## Modifiers and letters -/

/-- A property of all bytes, as one of the numbers below 256. -/
theorem forall_byte {P : UInt8 → Prop} (h : ∀ n < 256, P (UInt8.ofNat n)) (c : UInt8) : P c := by
  rw [← UInt8.ofNat_toNat (x := c)]
  exact h c.toNat c.toNat_lt

theorem number_of_classify : ∀ c : UInt8, classify c = .number → c = 0x6E :=
  forall_byte (by decide +kernel)

theorem isModifier_of_isdigit : ∀ c : UInt8, isdigit c = true → isModifier c = true :=
  forall_byte (by decide +kernel)

/-- A letter is a conversion or the `n`. -/
theorem conversion_of_letter {c : UInt8} (h : isModifier c = false) (hn : c ≠ 0x6E) :
    classify c ∈ conversionTokens := by
  have hnumber : classify c ≠ .number := fun ht => hn (number_of_classify c ht)
  unfold isModifier at h
  unfold conversionTokens
  cases ht : classify c <;> simp [ht] at h hnumber ⊢

section Letters

variable {mods rest : List UInt8} {letter : UInt8}

/-- The letter ends the modifiers. -/
theorem modifiers_unique {mods' rest' : List UInt8} {letter' : UInt8}
    (hmods : ∀ c ∈ mods, isModifier c = true) (hletter : isModifier letter = false)
    (hmods' : ∀ c ∈ mods', isModifier c = true) (hletter' : isModifier letter' = false)
    (h : mods ++ letter :: rest = mods' ++ letter' :: rest') :
    mods = mods' ∧ letter = letter' ∧ rest = rest' := by
  have htake := congrArg (List.takeWhile isModifier) h
  rw [List.takeWhile_append_of_pos hmods, List.takeWhile_append_of_pos hmods',
    List.takeWhile_cons_of_neg (by simp [hletter]), List.takeWhile_cons_of_neg (by simp [hletter']),
    List.append_nil, List.append_nil] at htake
  subst htake
  have hrest := List.cons.inj (List.append_cancel_left h)
  exact ⟨rfl, hrest⟩

theorem isdigit_letter (hletter : isModifier letter = false) : isdigit letter = false := by
  by_contra h
  rw [isModifier_of_isdigit letter (eq_true_of_ne_false h)] at hletter
  cases hletter

/-- The digits of a width end in front of the letter. -/
theorem dropWhile_letter (hletter : isModifier letter = false) :
    (mods ++ letter :: rest).dropWhile isdigit = mods.dropWhile isdigit ++ letter :: rest := by
  have hdigit : ¬ isdigit letter = true := by simp [isdigit_letter hletter]
  rw [List.dropWhile_append]
  split
  · next hempty =>
    rw [List.isEmpty_iff.mp hempty, List.dropWhile_cons_of_neg hdigit, List.nil_append]
  · rfl

/-- How the engine takes a directive does not depend on the text after its letter. -/
theorem scan_directive (cfg : Config) (hmods : ∀ c ∈ mods, isModifier c = true)
    (hletter : isModifier letter = false) (hn : letter ≠ 0x6E) (d : Directive) (ap : Nat) :
    ∃ o : Option Conversion, ∀ rest, scan cfg d ap (mods ++ letter :: rest) = o.map (·, rest) := by
  have hdrop : ∀ l : List UInt8, (∀ c ∈ l, isModifier c = true) →
      ∀ c ∈ l.dropWhile isdigit, isModifier c = true :=
    fun l hl c hc => hl c ((List.dropWhile_sublist _).subset hc)
  have hatoi : ∀ (c : UInt8) (l rest : List UInt8),
      atoi (c :: (l ++ letter :: rest)) = atoi (c :: (l ++ [letter])) := by
    intro c l rest
    have hne : (c :: (l ++ [letter])).dropWhile isdigit ≠ [] := by
      have h := @dropWhile_letter (c :: l) [] letter hletter
      rw [List.cons_append] at h
      rw [h]
      simp
    have h := (digits_extend (g := rest) hne).2
    simpa using h
  induction hlen : mods.length using Nat.strongRecOn generalizing mods d ap with
  | ind n ih =>
    cases mods with
    | nil =>
      refine ⟨some ⟨letter, d, ap⟩, fun rest => ?_⟩
      have hc := conversion_of_letter hletter hn
      rw [List.nil_append, scan.eq_def]
      cases ht : classify letter <;> simp [ht, conversionTokens] at hc ⊢
    | cons c mods =>
      have hc := hmods c List.mem_cons_self
      have hmods' : ∀ c ∈ mods, isModifier c = true := fun c' h => hmods c' (List.mem_cons_of_mem c h)
      rw [List.length_cons] at hlen
      have hnext : ∀ l : List UInt8, l.length ≤ mods.length → (∀ c ∈ l, isModifier c = true) →
          ∀ d ap, ∃ o : Option Conversion, ∀ rest,
            scan cfg d ap (l ++ letter :: rest) = o.map (·, rest) :=
        fun l hle hl d ap => ih l.length (by omega) hl d ap rfl
      have hdigits := hnext (mods.dropWhile isdigit) (length_dropWhile_le isdigit mods)
        (hdrop mods hmods')
      cases ht : classify c with
      | digit =>
        obtain ⟨o, ho⟩ := hdigits { d with minimumWidth := atoi (c :: (mods ++ [letter])) } ap
        refine ⟨o, fun rest => ?_⟩
        rw [List.cons_append, scan.eq_def]
        simp only [ht]
        rw [hatoi, dropWhile_letter hletter, ho]
      | star =>
        obtain ⟨o, ho⟩ := hnext mods (Nat.le_refl _) hmods'
          { d with minimumWidth := cfg.args.int ap } (ap + 1)
        refine ⟨o, fun rest => ?_⟩
        rw [List.cons_append, scan.eq_def]
        simp only [ht]
        exact ho rest
      | longDouble =>
        refine ⟨none, fun rest => ?_⟩
        rw [List.cons_append, scan.eq_def]
        simp only [ht, Option.map_none]
      | period =>
        obtain ⟨o, ho⟩ := hnext mods (Nat.le_refl _) hmods' { d with precision := 0 } ap
        cases mods with
        | nil =>
          have hstar : letter ≠ 0x2A := by
            rintro rfl
            exact absurd hletter (by decide)
          refine ⟨o, fun rest => ?_⟩
          rw [List.cons_append, scan.eq_def]
          simp only [ht, List.nil_append, if_neg hstar, isdigit_letter hletter, Bool.false_eq_true,
            if_false]
          exact ho rest
        | cons c' mods =>
          have hle : mods.length ≤ (c' :: mods).length := Nat.le_succ _
          have hmods'' : ∀ c ∈ mods, isModifier c = true :=
            fun c h => hmods' c (List.mem_cons_of_mem c' h)
          by_cases hstar : c' = 0x2A
          · obtain ⟨o', ho'⟩ := hnext mods hle hmods'' { d with precision := cfg.args.int ap } (ap + 1)
            refine ⟨o', fun rest => ?_⟩
            rw [List.cons_append, scan.eq_def]
            simp only [ht, List.cons_append, if_pos hstar]
            exact ho' rest
          by_cases hdigit : isdigit c' = true
          · obtain ⟨o', ho'⟩ := hnext (mods.dropWhile isdigit)
              (Nat.le_trans (length_dropWhile_le isdigit mods) hle) (hdrop mods hmods'')
              { d with precision := atoi (c' :: (mods ++ [letter])) } ap
            refine ⟨o', fun rest => ?_⟩
            rw [List.cons_append, scan.eq_def]
            simp only [ht, List.cons_append, if_neg hstar, if_pos hdigit]
            rw [hatoi, dropWhile_letter hletter, ho']
          · refine ⟨o, fun rest => ?_⟩
            rw [List.cons_append, scan.eq_def]
            simp only [ht, List.cons_append, if_neg hstar, if_neg hdigit]
            exact ho rest
      | number => simp [isModifier, ht] at hc
      | char => simp [isModifier, ht] at hc
      | string => simp [isModifier, ht] at hc
      | integer => simp [isModifier, ht] at hc
      | real => simp [isModifier, ht] at hc
      | other => simp [isModifier, ht] at hc
      | _ =>
        obtain ⟨o, ho⟩ := hnext mods (Nat.le_refl _) hmods' (d.setFlag cfg (classify c)) ap
        rw [ht] at ho
        refine ⟨o, fun rest => ?_⟩
        rw [List.cons_append, scan.eq_def]
        simp only [ht]
        exact ho rest

/-- A `%n` at the end of the format has no end. -/
theorem scan_eq_none (cfg : Config) {format : List UInt8}
    (h : ∀ c ∈ format, isModifier c = true ∨ c = 0x6E) (d : Directive) (ap : Nat) :
    scan cfg d ap format = none := by
  have htail : ∀ {c : UInt8} {l l' : List UInt8}, (∀ c' ∈ c :: l, isModifier c' = true ∨ c' = 0x6E) →
      l'.Sublist l → ∀ c' ∈ l', isModifier c' = true ∨ c' = 0x6E :=
    fun hall hsub c' hc' => hall c' (List.mem_cons_of_mem _ (hsub.subset hc'))
  have hletter : ∀ {c : UInt8} {l : List UInt8}, (∀ c' ∈ c :: l, isModifier c' = true ∨ c' = 0x6E) →
      classify c ∉ conversionTokens := by
    intro c l hall hc
    rcases hall c List.mem_cons_self with hmod | rfl
    · unfold isModifier at hmod
      unfold conversionTokens at hc
      cases ht : classify c <;> simp [ht] at hmod hc
    · exact absurd hc (by decide)
  fun_induction scan cfg d ap format with
  | case1 => rfl
  | case2 d ap c rest hc ih => exact ih (htail h (List.Sublist.refl _))
  | case3 d ap c rest hc ih => exact ih (htail h (List.dropWhile_sublist _))
  | case4 d ap c rest hc ih => exact ih (htail h (List.Sublist.refl _))
  | case5 => rfl
  | case6 d ap c hc rest ih => exact ih (htail h (List.sublist_cons_self _ _))
  | case7 d ap c hc c' rest hne hdigit ih =>
    exact ih (htail h ((List.dropWhile_sublist _).trans (List.sublist_cons_self _ _)))
  | case8 d ap c hc c' rest hne hdigit ih => exact ih (htail h (List.Sublist.refl _))
  | case9 => rfl
  | case15 d ap c rest _ _ _ _ _ _ _ _ _ _ ih => exact ih (htail h (List.Sublist.refl _))
  | _ =>
    rename_i hc
    exact absurd (by simp [hc, conversionTokens]) (hletter h)

theorem directive_head_ne (hmods : ∀ c ∈ mods, isModifier c = true) (hne : mods = [] → letter ≠ 0x25) :
    (mods ++ letter :: rest).head? ≠ some 0x25 := by
  cases mods with
  | nil => exact fun h => hne rfl (Option.some.inj h)
  | cons c mods =>
    intro h
    have hc := hmods c List.mem_cons_self
    rw [Option.some.inj h] at hc
    exact absurd hc (by decide)

theorem directive_ne_percent {rest' : List UInt8} (hmods : ∀ c ∈ mods, isModifier c = true)
    (hne : mods = [] → letter ≠ 0x25) : mods ++ letter :: rest ≠ 0x25 :: rest' :=
  fun h => directive_head_ne hmods hne (congrArg List.head? h)

end Letters

/-! ## Complete formats -/

section Complete

variable {pre post lp lq letters : List UInt8}

theorem Complete.append (hpre : Complete pre lp) (hpost : Complete post lq) :
    Complete (pre ++ post) (lp ++ lq) := by
  induction hpre with
  | nil => exact hpost
  | char hc _ ih => exact .char hc ih
  | percent _ ih => exact .percent ih
  | directive hmods hletter hne _ ih =>
    rw [List.cons_append, List.append_assoc, List.cons_append, List.cons_append]
    exact .directive hmods hletter hne ih

/-- The letters of the start of a format are the first ones of the whole. -/
theorem Complete.letters_start (hpre : Complete pre lp) (h : Complete (pre ++ post) letters) :
    lp <+: letters := by
  induction hpre generalizing letters with
  | nil => exact List.nil_prefix
  | char hc _ ih =>
    generalize heq : _ ++ post = format at h
    rw [List.cons_append] at heq
    cases h with
    | nil => cases heq
    | char hc' h' =>
      obtain ⟨-, rfl⟩ := List.cons.inj heq
      exact ih h'
    | percent h' => exact absurd (List.cons.inj heq).1 hc
    | directive hmods hletter hne h' => exact absurd (List.cons.inj heq).1 hc
  | percent _ ih =>
    generalize heq : _ ++ post = format at h
    rw [List.cons_append, List.cons_append] at heq
    cases h with
    | nil => cases heq
    | char hc' h' => exact absurd (List.cons.inj heq).1.symm hc'
    | percent h' =>
      obtain ⟨-, heq'⟩ := List.cons.inj heq
      obtain ⟨-, rfl⟩ := List.cons.inj heq'
      exact ih h'
    | @directive mods rest letters letter hmods hletter hne h' =>
      exact absurd (List.cons.inj heq).2.symm (directive_ne_percent hmods hne)
  | @directive mods rest lp letter hmods hletter hne _ ih =>
    generalize heq : _ ++ post = format at h
    rw [List.cons_append, List.append_assoc, List.cons_append] at heq
    cases h with
    | nil => cases heq
    | char hc' h' => exact absurd (List.cons.inj heq).1.symm hc'
    | percent h' => exact absurd (List.cons.inj heq).2 (directive_ne_percent hmods hne)
    | directive hmods' hletter' hne' h' =>
      obtain ⟨-, rfl, rfl⟩ := modifiers_unique hmods hletter hmods' hletter' (List.cons.inj heq).2
      exact List.cons_prefix_cons.mpr ⟨rfl, ih h'⟩

/-- What comes before a complete part decides nothing but the arguments that are left. -/
theorem good_append_iff (cfg : Config) (hpre : Complete pre lp) (hn : 0x6E ∉ lp) (ap : Nat) :
    ∃ ap', ∀ post, Good cfg ap (pre ++ post) ↔ Good cfg ap pre ∧ Good cfg ap' post := by
  induction hpre generalizing ap with
  | nil => exact ⟨ap, fun post => (and_iff_right good_nil).symm⟩
  | char hc _ ih =>
    obtain ⟨ap', hap'⟩ := ih hn ap
    refine ⟨ap', fun post => ?_⟩
    rw [List.cons_append, good_char_iff hc, good_char_iff hc]
    exact hap' post
  | percent _ ih =>
    obtain ⟨ap', hap'⟩ := ih hn ap
    refine ⟨ap', fun post => ?_⟩
    rw [List.cons_append, List.cons_append, good_percent_iff, good_percent_iff]
    exact hap' post
  | @directive mods rest lp letter hmods hletter hne _ ih =>
    have hn' : letter ≠ 0x6E ∧ 0x6E ∉ lp := by
      constructor
      · rintro rfl
        exact hn List.mem_cons_self
      · exact fun h => hn (List.mem_cons_of_mem letter h)
    have hhead : ∀ tail, (mods ++ letter :: tail).head? ≠ some 0x25 :=
      fun tail => directive_head_ne hmods hne
    obtain ⟨o, ho⟩ := scan_directive cfg hmods hletter hn'.1 {} ap
    cases o with
    | none =>
      have hnot : ∀ tail, ¬ Good cfg ap (0x25 :: (mods ++ letter :: tail)) := by
        intro tail h
        rw [good_directive_iff (hhead tail), ho tail] at h
        obtain ⟨conv, rest', hscan, -⟩ := h
        cases hscan
      refine ⟨ap, fun post => ?_⟩
      rw [List.cons_append, List.append_assoc, List.cons_append]
      exact iff_of_false (hnot _) fun h => hnot _ h.1
    | some conv =>
      have hgood : ∀ tail, Good cfg ap (0x25 :: (mods ++ letter :: tail))
          ↔ Fits cfg conv ∧ Good cfg conv.nextAp tail := by
        intro tail
        rw [good_directive_iff (hhead tail), ho tail]
        constructor
        · rintro ⟨conv', rest', hscan, h⟩
          obtain ⟨rfl, rfl⟩ := Prod.mk.inj (Option.some.inj hscan)
          exact h
        · exact fun h => ⟨conv, tail, rfl, h⟩
      obtain ⟨ap', hap'⟩ := ih hn'.2 conv.nextAp
      refine ⟨ap', fun post => ?_⟩
      rw [List.cons_append, List.append_assoc, List.cons_append, hgood, hgood, hap', and_assoc]

/-- The first `%n` of a format. -/
theorem Complete.first_number {format : List UInt8} (h : Complete format letters)
    (hn : 0x6E ∈ letters) : ∃ pre lp mods rest, format = pre ++ 0x25 :: (mods ++ 0x6E :: rest) ∧
      Complete pre lp ∧ 0x6E ∉ lp ∧ ∀ c ∈ mods, isModifier c = true := by
  induction h with
  | nil => cases hn
  | @char c rest letters hc _ ih =>
    obtain ⟨pre, lp, mods, rest', rfl, hpre, hlp⟩ := ih hn
    exact ⟨c :: pre, lp, mods, rest', rfl, .char hc hpre, hlp⟩
  | percent _ ih =>
    obtain ⟨pre, lp, mods, rest', rfl, hpre, hlp⟩ := ih hn
    exact ⟨0x25 :: 0x25 :: pre, lp, mods, rest', rfl, .percent hpre, hlp⟩
  | @directive mods rest letters letter hmods hletter hne _ ih =>
    by_cases hfirst : letter = 0x6E
    · subst hfirst
      exact ⟨[], [], mods, rest, rfl, .nil, List.not_mem_nil, hmods⟩
    · obtain ⟨pre, lp, mods', rest', rfl, hpre, hlp, hmods'⟩ :=
        ih ((List.mem_cons.mp hn).resolve_left (Ne.symm hfirst))
      refine ⟨0x25 :: (mods ++ letter :: pre), letter :: lp, mods', rest', ?_,
        .directive hmods hletter hne hpre, ?_, hmods'⟩
      · simp only [List.cons_append, List.append_assoc]
      · rw [List.mem_cons, not_or]
        exact ⟨Ne.symm hfirst, hlp⟩

end Complete

/-! ## Which formats compose -/

/-- A format of complete directives composes at the end of each of them when the engine gets
through it and it has no `%n`. -/
theorem compositional_iff {cfg : Config} {format : CString} {letters : List UInt8}
    (h : Complete format.val letters) :
    Compositional cfg format ↔ Good cfg 0 format.val ∧ 0x6E ∉ letters := by
  constructor
  · intro hcomp
    refine ⟨?_, fun hn => ?_⟩
    · have hwhole := hcomp format letters List.prefix_rfl h
      exact (returned_start_iff cfg format).mp (composes_iff format |>.mp hwhole)
    · obtain ⟨pre, lp, mods, rest, heq, hpre, hlp, hmods⟩ := h.first_number hn
      -- the part up to the first `%n`
      have hstart : pre ++ 0x25 :: (mods ++ [0x6E]) <+: format.val := by
        rw [heq]
        exact ⟨rest, by simp⟩
      have hcomplete : Complete (pre ++ 0x25 :: (mods ++ [0x6E])) (lp ++ [0x6E]) :=
        hpre.append (.directive hmods (by decide) (fun _ => by decide) .nil)
      have hpart := hcomp ⟨_, fun h0 => format.property (hstart.subset h0)⟩ _ hstart hcomplete
      have hgood := (returned_start_iff cfg _).mp ((composes_iff _).mp hpart)
      obtain ⟨ap', hap'⟩ := good_append_iff cfg hpre hlp 0
      obtain ⟨conv, rest', hscan, -⟩ :=
        (good_directive_iff (directive_head_ne hmods fun _ => by decide)).mp ((hap' _).mp hgood).2
      rw [scan_eq_none cfg (fun c hc => ?_)] at hscan
      · cases hscan
      · exact (List.mem_append.mp hc).imp (hmods c) List.mem_singleton.mp
  · rintro ⟨hgood, hn⟩ part lp hstart hpart
    obtain ⟨post, hpost⟩ := hstart
    have hlp := hpart.letters_start (hpost ▸ h)
    obtain ⟨ap', hap'⟩ := good_append_iff cfg hpart (fun hmem => hn (hlp.subset hmem)) 0
    have hsplit : Good cfg 0 (part.val ++ post) := hpost ▸ hgood
    exact (composes_iff part).mpr ((returned_start_iff cfg part).mpr ((hap' post).mp hsplit).1)

/-- `%d` -/
theorem compositional_decimal : Compositional zeroConfig ⟨[0x25, 0x64], by decide⟩ := by
  have hcomplete : Complete [0x25, 0x64] [0x64] :=
    @Complete.directive [] [] [] 0x64 (List.forall_mem_nil _) (by decide) (by decide) .nil
  have hscan : scan zeroConfig {} 0 [0x64] = some (⟨0x64, {}, 0⟩, []) := by
    rw [scan.eq_def]
    rfl
  have hfits : Fits zeroConfig ⟨0x64, {}, 0⟩ := ⟨fun h => absurd h (by decide), fun _ => by decide⟩
  have hgood : Good zeroConfig 0 [0x25, 0x64] :=
    (good_directive_iff (by decide)).mpr ⟨_, _, hscan, hfits, good_nil⟩
  exact (compositional_iff hcomplete).mpr ⟨hgood, by decide⟩

/-- The engine reads on behind a `%n` at the end of the format. -/
theorem not_compositional_number :
    Complete [0x25, 0x6E] [0x6E] ∧ ¬ Compositional zeroConfig ⟨[0x25, 0x6E], by decide⟩ := by
  have hcomplete : Complete [0x25, 0x6E] [0x6E] :=
    @Complete.directive [] [] [] 0x6E (List.forall_mem_nil _) (by decide) (by decide) .nil
  refine ⟨hcomplete, fun h => ?_⟩
  have hgood := (returned_start_iff zeroConfig _).mp
    ((composes_iff _).mp (h _ _ List.prefix_rfl hcomplete))
  obtain ⟨conv, rest', hscan, -⟩ := (good_directive_iff (by decide)).mp hgood
  rw [scan_eq_none zeroConfig (List.forall_mem_singleton.mpr (by decide))] at hscan
  cases hscan

end Xeos.Video.Printf
