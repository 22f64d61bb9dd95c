import Xeos.Video.Integer

/-!
# Field widths

What a directive for an integer, a character or a string prints in a field of a minimum
width, with any combination of the flags `-`, `+`, `0` and `#`.

The engine prints the sign and the prefix of an integer first and pads the digits alone, it
pads on the right with zeros when both flags ask for it, it ignores a negative width
or takes it for a very large one, and it pads `(null)` like the empty string.
-/

namespace Xeos.Video.Printf

open Lib

/-! ## Fields -/

/-- The flags `-`, `+`, `0` and `#`. -/
def flagBytes : List UInt8 := [0x2D, 0x2B, 0x30, 0x23]

/-- The lengths `h` and `l`. -/
def lengthBytes : List UInt8 := [0x68, 0x6C]

/-- The letters of characters, strings and integers. -/
def fieldLetters : List UInt8 := 0x63 :: 0x73 :: letters

/-- A directive behind its `%`.  A width that is not in the format is a `*`. -/
structure Field where
  flags : List UInt8
  width : Option { w : Nat // w < 20 }
  length : List UInt8
  letter : UInt8
  flags_mem : ∀ c ∈ flags, c ∈ flagBytes
  length_mem : ∀ c ∈ length, c ∈ lengthBytes
  letter_mem : letter ∈ fieldLetters

namespace Field

variable (f : Field) (cfg : Config) (ap : Nat)

/-- The directive as it is written. -/
def text : List UInt8 :=
  f.flags ++ ((f.width.elim [0x2A] fun w => widthText w) ++ (f.length ++ [f.letter]))

/-- The position of the converted argument. -/
def argument : Nat := f.width.elim (ap + 1) fun _ => ap

/-- The minimum width. -/
def minimumWidth : Int32 := f.width.elim (cfg.args.int ap) fun w => Int32.ofNat w

/-- The flag `-`. -/
def left : Bool := decide (0x2D ∈ f.flags)

/-- The flag `0`. -/
def zero : Bool := decide (0x30 ∈ f.flags)

/-- The length that the letters `h` and `l` select. -/
def intLength : IntegerLength :=
  (f.length.foldl (fun d c => Directive.setFlag cfg (classify c) d) {}).intLength

/-- The directive that the engine has read in front of the letter. -/
def directive : Directive where
  minimumWidth := f.minimumWidth cfg ap
  pad := if f.zero then 0x30 else 0x20
  sharp := decide (0x23 ∈ f.flags)
  align := f.left
  sign := if 0x2B ∈ f.flags then .always else .normal
  intLength := f.intLength cfg

/-- The argument of an integer conversion. -/
def number : Number :=
  fetch cfg (f.directive cfg ap) (normalizeType (typeBits f.letter)) (f.argument ap)

/-- The converted text in front of the digits. -/
def lead : List UInt8 :=
  match classify f.letter with
  | .char | .string => []
  | _ => signText (f.directive cfg ap) ++ prefixText (f.number cfg ap)

/-- The digits, the character or the string. -/
def body : List UInt8 :=
  match classify f.letter with
  | .char => [(cfg.args.int (f.argument ap)).toUInt32.toUInt8]
  | .string => ((cfg.args.string (f.argument ap)).map Subtype.val).getD nullText
  | _ =>
    numeral (radixOf (f.number cfg ap).intType).toNat (digitChar (f.number cfg ap).intType)
      (f.number cfg ap).n.toNat

end Field

/-- A converted text in a field: spaces on the right, zeros between the sign or the prefix
and the rest, or spaces in front.  A negative width is one on the left. -/
def fieldText (left zero : Bool) (width : Int) (lead body : List UInt8) : List UInt8 :=
  let pads := width.natAbs - (lead ++ body).length
  if left = true ∨ width < 0 then lead ++ body ++ List.replicate pads 0x20
  else if zero then lead ++ List.replicate pads 0x30 ++ body
  else List.replicate pads 0x20 ++ (lead ++ body)

/-- The field is as wide as its width or its converted text. -/
theorem length_fieldText (left zero : Bool) (width : Int) (lead body : List UInt8) :
    (fieldText left zero width lead body).length
      = max width.natAbs (lead.length + body.length) := by
  unfold fieldText
  simp only
  split_ifs <;> simp only [List.length_append, List.length_replicate] <;> omega

/-- Wherever it stands in a format, and whatever has been printed before it, the directive
prints the text and uses the arguments up to `ap'`. -/
def PrintsField (cfg : Config) (ap : Nat) (directive : List UInt8) (ap' : Nat)
    (text : List UInt8) : Prop :=
  ∀ rest count out r,
    Returns (step cfg) (.outer ⟨.inside (0x25 :: (directive ++ rest)), count, ap, out⟩) r ↔
      Returns (step cfg) (.outer ⟨.inside rest, count + Int32.ofNat text.length, ap',
        out ++ text.map Event.char⟩) r

/-! ## The flags, the width and the length -/

section Flags

variable {cfg : Config}

/-- The directive after some flags or lengths. -/
def Directive.setFlags (cfg : Config) (cs : List UInt8) (d : Directive) : Directive :=
  cs.foldl (fun d c => d.setFlag cfg (classify c)) d

theorem returns_flags_iff {cs : List UInt8} (hcs : ∀ c ∈ cs, c ∈ flagBytes ++ lengthBytes)
    {rest : List UInt8} {d : Directive} {count : Int32} {ap : Nat} {out : List Event} {r : Result} :
    Returns (step cfg) (.inner d ⟨.inside (cs ++ rest), count, ap, out⟩) r ↔
      Returns (step cfg) (.inner (d.setFlags cfg cs) ⟨.inside rest, count, ap, out⟩) r := by
  have hclass : ∀ c ∈ flagBytes ++ lengthBytes,
      classify c ∈ [Token.minus, .plus, .zero, .sharp, .half, .long] :=
    List.all_iff_forall_prop.mp (by decide)
  induction cs generalizing d with
  | nil => rfl
  | cons c cs ih =>
    rw [returns_flag_iff rfl (hclass c (hcs c List.mem_cons_self)) rfl]
    exact ih (fun c hc => hcs c (List.mem_cons_of_mem _ hc))

/-- What the flags set. -/
theorem setFlags_flags {cs : List UInt8} (hcs : ∀ c ∈ cs, c ∈ flagBytes) (d : Directive) :
    d.setFlags cfg cs = { d with
      pad := if 0x30 ∈ cs then 0x30 else d.pad
      sharp := decide (0x23 ∈ cs) || d.sharp
      align := decide (0x2D ∈ cs) || d.align
      sign := if 0x2B ∈ cs then .always else d.sign } := by
  induction cs generalizing d with
  | nil => simp [Directive.setFlags]
  | cons c cs ih =>
    have hcons : d.setFlags cfg (c :: cs) = (d.setFlag cfg (classify c)).setFlags cfg cs := rfl
    rw [hcons, ih (fun c hc => hcs c (List.mem_cons_of_mem _ hc))]
    have hc := hcs c List.mem_cons_self
    simp only [flagBytes, List.mem_cons, List.not_mem_nil, or_false] at hc
    rcases hc with rfl | rfl | rfl | rfl
    · have htoken : classify 0x2D = .minus := by decide
      simp [htoken, Directive.setFlag]
    · have htoken : classify 0x2B = .plus := by decide
      simp [htoken, Directive.setFlag]
    · have htoken : classify 0x30 = .zero := by decide
      simp [htoken, Directive.setFlag]
    · have htoken : classify 0x23 = .sharp := by decide
      simp [htoken, Directive.setFlag]

/-- The lengths set the length alone, by what it was before. -/
theorem setFlags_lengths {cs : List UInt8} (hcs : ∀ c ∈ cs, c ∈ lengthBytes) {d d' : Directive}
    (hd : d.intLength = d'.intLength) :
    d.setFlags cfg cs = { d with intLength := (d'.setFlags cfg cs).intLength } := by
  induction cs generalizing d d' with
  | nil =>
    simp only [Directive.setFlags, List.foldl_nil, ← hd]
  | cons c cs ih =>
    have hcons : ∀ d : Directive,
        d.setFlags cfg (c :: cs) = (d.setFlag cfg (classify c)).setFlags cfg cs := fun _ => rfl
    have hc := hcs c List.mem_cons_self
    simp only [lengthBytes, List.mem_cons, List.not_mem_nil, or_false] at hc
    have hset : ∃ intLength, d.setFlag cfg (classify c) = { d with intLength := intLength } ∧
        (d'.setFlag cfg (classify c)).intLength = intLength := by
      rcases hc with rfl | rfl
      · exact ⟨.length16, rfl, rfl⟩
      · have htoken : classify 0x6C = .long := by decide
        rw [htoken]
        simp only [Directive.setFlag, hd]
        exact ⟨_, rfl, rfl⟩
    obtain ⟨intLength, heq, heq'⟩ := hset
    rw [hcons, hcons, heq, ih (fun c hc => hcs c (List.mem_cons_of_mem _ hc)) heq'.symm]

/-- The width of a field, in front of its length and its letter. -/
theorem returns_fieldWidth_iff (f : Field) {rest : List UInt8} {d : Directive} {count : Int32}
    {ap : Nat} {out : List Event} {r : Result} (hd : d.minimumWidth = 0) :
    Returns (step cfg) (.inner d ⟨.inside ((f.width.elim [0x2A] fun w => widthText w)
      ++ (f.length ++ [f.letter] ++ rest)), count, ap, out⟩) r ↔ Returns (step cfg)
      (.inner { d with minimumWidth := f.minimumWidth cfg ap }
        ⟨.inside (f.length ++ [f.letter] ++ rest), count, f.argument ap, out⟩) r := by
  have hdigit : ∀ c ∈ lengthBytes ++ fieldLetters, isdigit c = false :=
    List.all_iff_forall_prop.mp (by decide)
  have hnext : ∃ c cs, f.length ++ [f.letter] ++ rest = c :: cs ∧ isdigit c = false := by
    cases hlength : f.length with
    | nil => exact ⟨f.letter, rest, rfl, hdigit _ (List.mem_append_right _ f.letter_mem)⟩
    | cons c cs =>
      have hmem : c ∈ lengthBytes := f.length_mem c (hlength ▸ List.mem_cons_self)
      exact ⟨c, _, rfl, hdigit _ (List.mem_append_left _ hmem)⟩
  obtain ⟨c, cs, htail, hc⟩ := hnext
  rw [htail]
  unfold Field.minimumWidth Field.argument
  cases f.width with
  | none =>
    have hstar : classify 0x2A = .star := by decide
    refine @returns_inner_iff cfg d _ r 0x2A (c :: cs) rfl _ ?_
    simp only [stepInner, hstar, Cursor.next, Option.elim_none, List.singleton_append]
  | some w => exact returns_width_iff (show w.val < 30 by have hw := w.property; omega) hc hd rfl

/-- The directive does not start with a second `%`. -/
theorem head?_text (f : Field) (rest : List UInt8) : (f.text ++ rest).head? ≠ some 0x25 := by
  have hpercent : ∀ c ∈ flagBytes ++ lengthBytes ++ fieldLetters, c ≠ 0x25 :=
    List.all_iff_forall_prop.mp (by decide)
  have htail : (f.length ++ [f.letter] ++ rest).head? ≠ some 0x25 := by
    cases hlength : f.length with
    | nil =>
      intro h
      exact hpercent _ (List.mem_append_right _ f.letter_mem) (Option.some.inj h)
    | cons c cs =>
      have hmem : c ∈ lengthBytes := f.length_mem c (hlength ▸ List.mem_cons_self)
      intro h
      exact hpercent c (List.mem_append_left _ (List.mem_append_right _ hmem)) (Option.some.inj h)
  unfold Field.text
  cases hflags : f.flags with
  | cons c cs =>
    have hmem : c ∈ flagBytes := f.flags_mem c (hflags ▸ List.mem_cons_self)
    intro h
    exact hpercent c (List.mem_append_left _ (List.mem_append_left _ hmem)) (Option.some.inj h)
  | nil =>
    rw [List.nil_append, List.append_assoc]
    cases f.width with
    | none => exact fun h => absurd (Option.some.inj h) (by decide)
    | some w =>
      rw [Option.elim_some]
      by_cases hzero : w.val = 0
      · rw [hzero]
        exact htail
      · have hw := w.property
        obtain ⟨c, cs, heq, hdigit, _⟩ := widthText_eq (show w.val < 30 by omega) hzero
        rw [heq]
        intro h
        rw [Option.some.inj h] at hdigit
        exact absurd hdigit (by decide)

/-- The engine reads the directive up to its letter. -/
theorem returns_field_iff (f : Field) {rest : List UInt8} {count : Int32} {ap : Nat}
    {out : List Event} {r : Result} :
    Returns (step cfg) (.outer ⟨.inside (0x25 :: (f.text ++ rest)), count, ap, out⟩) r ↔
      Returns (step cfg) (.inner (f.directive cfg ap)
        ⟨.inside (f.letter :: rest), count, f.argument ap, out⟩) r := by
  have hdirective : Directive.setFlags cfg f.length
      { Directive.setFlags cfg f.flags {} with minimumWidth := f.minimumWidth cfg ap }
        = f.directive cfg ap := by
    rw [setFlags_flags f.flags_mem]
    refine Eq.trans (@setFlags_lengths cfg f.length f.length_mem _ {} ?_) ?_
    · rfl
    · simp only [Field.directive, Field.left, Field.zero, Bool.or_false, decide_eq_true_eq]
      rfl
  rw [returns_iff_of_step (step_outer_directive rfl (head?_text f rest))]
  unfold Field.text
  rw [List.append_assoc, List.append_assoc,
    returns_flags_iff fun c hc => List.mem_append_left _ (f.flags_mem c hc),
    returns_fieldWidth_iff f (by rw [setFlags_flags f.flags_mem]), List.append_assoc,
    returns_flags_iff fun c hc => List.mem_append_right _ (f.length_mem c hc), hdirective]
  rfl

end Flags

/-! ## The conversions -/

section Conversion

variable {cfg : Config}

/-- Characters around a text, on the side that the flag selects. -/
def padWith (align : Bool) (pad : UInt8) (k : Nat) (text : List UInt8) : List UInt8 :=
  if align then text ++ List.replicate k pad else List.replicate k pad ++ text

/-- The length that `case 's'` compares with the width: `strlen` returns zero for `NULL`. -/
def stringLength (arg : Option CString) : Nat := (arg.map fun str => str.val.length).getD 0

/-- How many characters the engine pads with. -/
def Field.pads (f : Field) (cfg : Config) (ap : Nat) : Nat :=
  match classify f.letter with
  | .string =>
    widthSize cfg (f.directive cfg ap) - stringLength (cfg.args.string (f.argument ap))
  | _ => ((f.minimumWidth cfg ap).toInt - (f.body cfg ap).length).toNat

/-- What the engine prints. -/
def Field.printed (f : Field) (cfg : Config) (ap : Nat) : List UInt8 :=
  f.lead cfg ap ++ padWith f.left (if f.zero then 0x30 else 0x20) (f.pads cfg ap) (f.body cfg ap)

/-- The loop over a string passes its characters to the handler. -/
theorem returns_string_iff (hhandler : cfg.handler = true) (d : Directive) (len : Nat)
    (bytes : List UInt8) (s : Engine) {r : Result} :
    Returns (step cfg) (.string d len bytes s) r
      ↔ Returns (step cfg) (.outer (endString cfg d len (s.puts cfg bytes))) r := by
  induction bytes generalizing s with
  | nil => exact returns_iff_of_step rfl
  | cons c rest ih =>
    have hstep : step cfg (.string d len (c :: rest) s) = .inl (.string d len rest (s.put cfg c)) := by
      simp only [step, hhandler, if_true]
    rw [returns_iff_of_step hstep, ih]
    rfl

/-- A string conversion prints the string with its padding. -/
theorem returns_startString_iff (hhandler : cfg.handler = true) (d : Directive) (s : Engine)
    {r : Result} :
    Returns (step cfg) (startString cfg d s) r ↔ Returns (step cfg)
      (.outer { Engine.puts cfg (padWith d.align d.pad
        (widthSize cfg d - stringLength (cfg.args.string s.ap))
        (((cfg.args.string s.ap).map Subtype.val).getD nullText)) { s with ap := s.ap + 1 }
          with format := s.format.next }) r := by
  unfold startString stringLength
  simp only
  generalize ((cfg.args.string s.ap).map fun str => str.val.length).getD 0 = len
  generalize ((cfg.args.string s.ap).map Subtype.val).getD nullText = bytes
  by_cases hlen : len < widthSize cfg d
  · cases halign : d.align with
    | false =>
      rw [if_pos ⟨rfl, hlen⟩, returns_string_iff hhandler, ← Engine.puts_append]
      simp [endString, padWith, halign]
    | true =>
      rw [if_neg (by simp), returns_string_iff hhandler]
      simp [endString, padWith, halign, hlen, Engine.puts_append]
  · rw [if_neg (fun h => hlen h.2), returns_string_iff hhandler,
      Nat.sub_eq_zero_of_le (Nat.not_lt.mp hlen)]
    cases d.align <;> simp [endString, padWith, hlen]

/-- A character conversion prints the character with its padding. -/
theorem convertChar_eq (d : Directive) (s : Engine) :
    convertChar cfg d s = { Engine.puts cfg (padWith d.align d.pad (d.minimumWidth.toInt - 1).toNat
      [(cfg.args.int s.ap).toUInt32.toUInt8]) { s with ap := s.ap + 1 }
        with format := s.format.next } := by
  have hput : ∀ c, ∀ s : Engine, s.put cfg c = s.puts cfg [c] := fun _ _ => rfl
  unfold convertChar padWith
  simp only [hput]
  cases d.align with
  | false => simp [Engine.puts_append]
  | true =>
    simp only [Bool.true_eq_false, if_false, if_true, Engine.puts_append, Engine.puts_format]

/-- A letter is that of a character, a string or an integer. -/
theorem Field.classify_letter (f : Field) :
    classify f.letter = .char ∨ classify f.letter = .string ∨ classify f.letter = .integer := by
  have hall : ∀ c ∈ fieldLetters,
      classify c = .char ∨ classify c = .string ∨ classify c = .integer :=
    List.all_iff_forall_prop.mp (by decide)
  exact hall f.letter f.letter_mem

theorem stepInner_integer {c : UInt8} {d : Directive} {s s' : Engine} (hc : classify c = .integer)
    (h : convertInteger cfg c d s = some s') : stepInner cfg c d s = .inl (.outer s') := by
  unfold stepInner
  rw [hc, h]

/-- The directive prints this text. -/
theorem printsField_printed (hhandler : cfg.handler = true) (f : Field) (ap : Nat)
    (hwidth : (f.minimumWidth cfg ap).toInt < 30) :
    PrintsField cfg ap f.text (f.argument ap + 1) (f.printed cfg ap) := by
  intro rest count out r
  have hdone : ∀ s : Engine, ∀ text, s = ⟨.inside (f.letter :: rest), count, f.argument ap, out⟩ →
      ({ Engine.puts cfg text { s with ap := s.ap + 1 } with format := s.format.next } : Engine)
        = ⟨.inside rest, count + Int32.ofNat text.length, f.argument ap + 1,
            out ++ text.map Event.char⟩ := by
    intro s text hs
    rw [Engine.puts_eq hhandler, hs]
    rfl
  rw [returns_field_iff]
  unfold Field.printed Field.lead Field.pads Field.body
  rcases f.classify_letter with hc | hc | hc
  · have hinner : stepInner cfg f.letter (f.directive cfg ap)
        ⟨.inside (f.letter :: rest), count, f.argument ap, out⟩
          = .inl (.outer (convertChar cfg (f.directive cfg ap)
            ⟨.inside (f.letter :: rest), count, f.argument ap, out⟩)) := by
      unfold stepInner
      rw [hc]
    rw [returns_inner_iff rfl hinner, convertChar_eq, hdone _ _ rfl, hc]
    rfl
  · have hinner : stepInner cfg f.letter (f.directive cfg ap)
        ⟨.inside (f.letter :: rest), count, f.argument ap, out⟩
          = .inl (startString cfg (f.directive cfg ap)
            ⟨.inside (f.letter :: rest), count, f.argument ap, out⟩) := by
      unfold stepInner
      rw [hc]
    rw [returns_inner_iff rfl hinner, returns_startString_iff hhandler, hdone _ _ rfl, hc]
    rfl
  · have hsign : (f.directive cfg ap).sign ≠ .none := by
      unfold Field.directive
      simp only
      split_ifs <;> decide
    have hconvert := (@convertInteger_eq cfg f.letter (f.directive cfg ap)
      ⟨.inside (f.letter :: rest), count, f.argument ap, out⟩ (f.number cfg ap) rfl hsign
      hwidth).trans (congrArg some (hdone _ _ rfl))
    rw [returns_inner_iff rfl (stepInner_integer hc hconvert), hc]
    rfl

/-- A directive prints one text. -/
theorem PrintsField.unique {ap ap' : Nat} {directive text text' : List UInt8}
    (h : PrintsField cfg ap directive ap' text) (h' : PrintsField cfg ap directive ap' text') :
    text = text' := by
  have hend : ∀ text : List UInt8, ∀ r, Returns (step cfg) (.outer ⟨.inside [],
      0 + Int32.ofNat text.length, ap', [] ++ text.map Event.char⟩) r ↔
      r = .returned (0 + Int32.ofNat text.length) (text.map Event.char) :=
    fun text r => returns_iff_of_done rfl
  have hr := (hend text' _).mp ((h' [] 0 [] _).mp ((h [] 0 [] _).mpr ((hend text _).mpr rfl)))
  injection hr with _ hout
  exact List.map_injective_iff.mpr (fun _ _ heq => Event.char.inj heq) hout

end Conversion

/-! ## The width of the field -/

/-- Padding behind the lead makes a field when it has the right length and is not made of zeros
on the right. -/
theorem padWith_eq_fieldText_iff {left zero : Bool} {w : Int} {lead body : List UInt8} {k : Nat}
    (hneg : w < 0 → k = w.natAbs - (lead ++ body).length → k = 0)
    (hlead : k = w.natAbs - (lead ++ body).length → k ≠ 0 → lead = []) :
    lead ++ padWith left (if zero then 0x30 else 0x20) k body = fieldText left zero w lead body ↔
      k = w.natAbs - (lead ++ body).length ∧ (k = 0 ∨ ¬ (left = true ∧ zero = true)) := by
  constructor
  · intro h
    have hlength := congrArg List.length h
    have hpadded : (lead ++ padWith left (if zero then 0x30 else 0x20) k body).length
        = lead.length + (k + body.length) := by
      unfold padWith
      cases left <;> simp [Nat.add_comm]
    rw [hpadded, length_fieldText] at hlength
    have hk : k = w.natAbs - (lead ++ body).length := by
      rw [List.length_append]
      omega
    refine ⟨hk, ?_⟩
    by_contra hor
    rw [not_or, not_not] at hor
    obtain ⟨hne, hleft, hzero⟩ := hor
    rw [hlead hk hne, hleft, hzero] at h
    have hcancel : List.replicate k 0x30 = List.replicate (w.natAbs - body.length) (0x20 : UInt8) :=
      List.append_cancel_left h
    exact hne ((List.replicate_inj.mp hcancel).2.resolve_right (by decide))
  · intro h
    obtain ⟨hk, hplace⟩ := h
    unfold fieldText padWith
    simp only [← hk]
    by_cases hzero : k = 0
    · rw [hzero]
      cases left <;> cases zero <;> simp
    · have hpos : ¬ w < 0 := fun hw => hzero (hneg hw hk)
      rw [hlead hk hzero]
      have hflags : ¬ (left = true ∧ zero = true) := hplace.resolve_left hzero
      cases left <;> cases zero <;> simp_all

/-- The condition under which the width counts the whole field. -/
def Field.WidthKept (f : Field) (cfg : Config) (ap : Nat) : Prop :=
  let w := (f.minimumWidth cfg ap).toInt
  match classify f.letter with
  | .string =>
    match cfg.args.string (f.argument ap) with
    | none => w = 0
    | some str =>
      if w < 0 then (if cfg.lp64 then 2 ^ 64 else 2 ^ 32) + w ≤ str.val.length
      else w ≤ str.val.length ∨ ¬ (f.left = true ∧ f.zero = true)
  | _ =>
    if w < 0 then -w ≤ (f.lead cfg ap).length + (f.body cfg ap).length
    else w ≤ (f.body cfg ap).length ∨ f.lead cfg ap = [] ∧ ¬ (f.left = true ∧ f.zero = true)

section Width

variable {cfg : Config}

/-- The text of the field, with the sign and the prefix that the engine prints. -/
def Field.fieldText (f : Field) (cfg : Config) (ap : Nat) : List UInt8 :=
  Printf.fieldText f.left f.zero (f.minimumWidth cfg ap).toInt (f.lead cfg ap) (f.body cfg ap)

/-- Digits or a character. -/
theorem padWith_number_iff {left zero : Bool} {w : Int} {lead body : List UInt8} :
    lead ++ padWith left (if zero then 0x30 else 0x20) (w - body.length).toNat body
        = Printf.fieldText left zero w lead body ↔
      if w < 0 then -w ≤ lead.length + body.length
      else w ≤ body.length ∨ lead = [] ∧ ¬ (left = true ∧ zero = true) := by
  have hlength : (lead ++ body).length = lead.length + body.length := List.length_append
  rw [padWith_eq_fieldText_iff (fun hw _ => by omega)
    (fun hk hne => List.length_eq_zero_iff.mp (by omega)), hlength, ← List.length_eq_zero_iff]
  split_ifs with hw
  · have hzero : (w - body.length).toNat = 0 := by omega
    rw [hzero]
    constructor
    · intro h
      omega
    · intro h
      exact ⟨by omega, Or.inl rfl⟩
  · constructor
    · intro h
      obtain ⟨hk, hplace⟩ := h
      by_cases hle : w ≤ body.length
      · exact Or.inl hle
      · exact Or.inr ⟨by omega, hplace.resolve_left (by omega)⟩
    · intro h
      rcases h with hle | ⟨hlead, hflags⟩
      · exact ⟨by omega, Or.inl (by omega)⟩
      · exact ⟨by omega, Or.inr hflags⟩

/-- A string.  The width as a `size_t` is very large when it is negative. -/
theorem padWith_string_iff {left zero : Bool} {w : Int} {body : List UInt8} {size : Nat}
    (hpos : ¬ w < 0 → (size : Int) = w) (hneg : w < 0 → w.natAbs < size) :
    [] ++ padWith left (if zero then 0x30 else 0x20) (size - body.length) body
        = Printf.fieldText left zero w [] body ↔
      if w < 0 then size ≤ body.length
      else w ≤ body.length ∨ ¬ (left = true ∧ zero = true) := by
  rw [padWith_eq_fieldText_iff (fun hw hk => by rw [List.nil_append] at hk; omega)
    (fun _ _ => rfl), List.nil_append]
  split_ifs with hw
  · constructor
    · intro h
      omega
    · intro h
      exact ⟨by omega, Or.inl (by omega)⟩
  · constructor
    · intro h
      exact h.2.imp_left fun hk => by omega
    · intro h
      exact ⟨by omega, h.imp_left fun hle => by omega⟩

/-- `(null)` is padded like the empty string. -/
theorem padWith_null_iff {left zero : Bool} {w : Int} {size : Nat}
    (hpos : ¬ w < 0 → (size : Int) = w) (hneg : w < 0 → w.natAbs < size) :
    [] ++ padWith left (if zero then 0x30 else 0x20) (size - 0) nullText
        = Printf.fieldText left zero w [] nullText ↔ w = 0 := by
  have hlength : nullText.length = 6 := rfl
  rw [padWith_eq_fieldText_iff (fun hw hk => by rw [List.nil_append] at hk; omega)
    (fun _ _ => rfl), List.nil_append, hlength]
  constructor
  · intro h
    omega
  · intro h
    exact ⟨by omega, Or.inl (by omega)⟩

theorem widthSize_eq (d : Directive) (hwidth : d.minimumWidth.toInt.natAbs < 20) :
    (widthSize cfg d : Int) = if d.minimumWidth.toInt < 0
      then (if cfg.lp64 then 2 ^ 64 else 2 ^ 32) + d.minimumWidth.toInt
      else d.minimumWidth.toInt := by
  unfold widthSize
  cases cfg.lp64 with
  | false =>
    simp only [Bool.false_eq_true, if_false]
    split_ifs <;> omega
  | true =>
    simp only [if_true]
    split_ifs <;> omega

theorem printed_eq_iff (f : Field) (ap : Nat)
    (hwidth : (f.minimumWidth cfg ap).toInt.natAbs < 20) :
    f.printed cfg ap = f.fieldText cfg ap ↔ f.WidthKept cfg ap := by
  unfold Field.printed Field.fieldText Field.WidthKept Field.pads
  rcases f.classify_letter with hc | hc | hc
  · rw [hc]
    simp only
    rw [padWith_number_iff]
  · rw [hc]
    simp only
    have hlead : f.lead cfg ap = [] := by
      unfold Field.lead
      rw [hc]
    have hbody : f.body cfg ap
        = ((cfg.args.string (f.argument ap)).map Subtype.val).getD nullText := by
      unfold Field.body
      rw [hc]
    have hsize := @widthSize_eq cfg (f.directive cfg ap) hwidth
    rw [show (f.directive cfg ap).minimumWidth = f.minimumWidth cfg ap from rfl] at hsize
    have hpos : ¬ (f.minimumWidth cfg ap).toInt < 0 →
        (widthSize cfg (f.directive cfg ap) : Int) = (f.minimumWidth cfg ap).toInt := by
      intro hw
      rw [hsize, if_neg hw]
    have hneg : (f.minimumWidth cfg ap).toInt < 0 →
        (f.minimumWidth cfg ap).toInt.natAbs < widthSize cfg (f.directive cfg ap) := by
      intro hw
      rw [if_pos hw] at hsize
      split_ifs at hsize <;> omega
    rw [hlead, hbody]
    cases harg : cfg.args.string (f.argument ap) with
    | none => exact padWith_null_iff hpos hneg
    | some str =>
      refine (padWith_string_iff hpos hneg).trans ?_
      dsimp only
      by_cases hw : (f.minimumWidth cfg ap).toInt < 0
      · rw [if_pos hw] at hsize
        rw [if_pos hw, if_pos hw, ← hsize, Int.ofNat_le]
      · rw [if_neg hw, if_neg hw]
  · rw [hc]
    simp only
    rw [padWith_number_iff]

end Width

end Xeos.Video.Printf
