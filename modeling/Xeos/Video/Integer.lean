import Mathlib.Data.Bool.AllAny
import Mathlib.Tactic.IntervalCases
import Xeos.Lib.Numeral
import Xeos.Video.DigitBuffer
import Xeos.Video.PrintfScan

/-!
# The integer conversions

What a format of one integer conversion prints: the canonical numeral of the argument,
with the padding in front of it.

The conversions `%d` and `%i` never print a sign, as the flag of a signed type is zero and
no test of its bit succeeds: a negative argument is printed as the number that its bits
stand for without a sign.
-/

namespace Xeos.Video.Printf

open Lib

/-! ## The digits -/

theorem digits_eq_numeral (radix : Radix) (intType n : Nat) (buf : List UInt8) :
    digits radix intType n buf = numeral radix.toNat (digitChar intType) n ++ buf := by
  have hradix := radix.eight_le
  induction n using Nat.strong_induction_on generalizing buf with
  | _ n ih =>
    unfold digits
    by_cases hlt : n / radix.toNat = 0
    · have hn : n < radix.toNat := (Nat.div_eq_zero_iff_lt (by omega)).mp hlt
      rw [if_pos hlt, Nat.mod_eq_of_lt hn, numeral_of_lt hn]
      rfl
    · have hn : radix.toNat ≤ n := by
        by_contra hge
        exact hlt (Nat.div_eq_of_lt (Nat.lt_of_not_le hge))
      rw [if_neg hlt, ih _ (Nat.div_lt_self (by omega) (by omega)),
        numeral_of_le (by omega) hn, List.append_assoc]
      rfl

/-! ## The output -/

section Output

variable {cfg : Config}

theorem Engine.puts_out (cs : List UInt8) (s : Engine) :
    (s.puts cfg cs).out = if cfg.handler then s.out ++ cs.map Event.char else s.out := by
  induction cs generalizing s with
  | nil => simp [puts]
  | cons c cs ih =>
    have hcons : s.puts cfg (c :: cs) = (s.put cfg c).puts cfg cs := rfl
    rw [hcons, ih]
    unfold put
    cases cfg.handler <;> simp

theorem Engine.puts_count (cs : List UInt8) (s : Engine) :
    (s.puts cfg cs).count = s.count + Int32.ofNat cs.length := by
  induction cs generalizing s with
  | nil => simp [puts]
  | cons c cs ih =>
    have hcons : s.puts cfg (c :: cs) = (s.put cfg c).puts cfg cs := rfl
    rw [hcons, ih, List.length_cons, Int32.ofNat_add, Int32.add_comm (Int32.ofNat cs.length),
      ← Int32.add_assoc]
    rfl

/-- Characters add themselves to the output and their number to the count. -/
theorem Engine.puts_eq (hhandler : cfg.handler = true) (cs : List UInt8) (s : Engine) :
    s.puts cfg cs = { s with
      count := s.count + Int32.ofNat cs.length
      out := s.out ++ cs.map Event.char } := by
  have hformat : (s.puts cfg cs).format = s.format := Engine.puts_format cfg cs s
  have hap : (s.puts cfg cs).ap = s.ap := Engine.puts_ap cfg cs s
  have hcount : (s.puts cfg cs).count = s.count + Int32.ofNat cs.length := Engine.puts_count cs s
  have hout := @Engine.puts_out cfg cs s
  rw [hhandler, if_pos rfl] at hout
  cases hs : s.puts cfg cs
  rw [hs] at hformat hap hcount hout
  simp only at hformat hap hcount hout
  rw [hformat, hap, hcount, hout]

theorem Engine.puts_append (cs cs' : List UInt8) (s : Engine) :
    s.puts cfg (cs ++ cs') = (s.puts cfg cs).puts cfg cs' := List.foldl_append

/-- The sign that a conversion prints. -/
def signText (d : Directive) : List UInt8 := if d.sign = .always then [0x2B] else []

/-- The prefix of the alternate form. -/
def prefixText (v : Number) : List UInt8 :=
  match radixOf v.intType with
  | .octal => if v.sharp = true ∧ v.n ≠ 0 then [0x30] else []
  | .hexadecimal => if v.sharp = true then [0x30, 0x78] else []
  | .decimal => []

/-- A conversion prints no sign, unless a flag asks for one. -/
theorem putSign_puts {d : Directive} (hsign : d.sign ≠ .none) (v : Number) (s : Engine) :
    putSign cfg d v s = (v.n, s.puts cfg (signText d)) := by
  unfold putSign signText
  rw [if_neg hsign]
  simp only [IntegerTypeNormal, Nat.and_zero, ne_eq, not_true, if_false, Bool.true_eq_false]
  split_ifs <;> rfl

theorem putSharp_puts (v : Number) (s : Engine) :
    putSharp cfg v v.n s = s.puts cfg (prefixText v) := by
  unfold putSharp prefixText
  cases radixOf v.intType with
  | octal => simp only; split_ifs <;> rfl
  | decimal => rfl
  | hexadecimal =>
    simp only
    split_ifs
    · rfl
    · rfl

/-- An integer conversion prints the sign and the prefix, and then the numeral with its
padding. -/
theorem convertInteger_eq {c : UInt8} {d : Directive} {s : Engine} {v : Number}
    (hv : fetch cfg d (normalizeType (typeBits c)) s.ap = v) (hsign : d.sign ≠ .none)
    (hwidth : d.minimumWidth.toInt < 30) :
    convertInteger cfg c d s = some { Engine.puts cfg (signText d ++ prefixText v ++ padDigits d
      (numeral (radixOf v.intType).toNat (digitChar v.intType) v.n.toNat))
        { s with ap := s.ap + 1 } with format := s.format.next } := by
  have hfits := (bufferSize_le_iff d (radixOf v.intType) v.intType v.n).not.mpr
    (show ¬ (30 : Int) ≤ _ by omega)
  rw [digits_eq_numeral, List.append_nil] at hfits
  unfold convertInteger
  simp only [hv, putSign_puts hsign, putSharp_puts, digits_eq_numeral, List.append_nil,
    if_neg hfits, Engine.puts_append, Engine.puts_format]

/-- Without a sign and a prefix it is the numeral with its padding. -/
theorem convertInteger_puts {c : UInt8} {d : Directive} {s : Engine} {v : Number}
    (hv : fetch cfg d (normalizeType (typeBits c)) s.ap = v) (hsign : d.sign = .normal)
    (hsharp : v.sharp = false) (hwidth : d.minimumWidth.toInt < 30) :
    let text := padDigits d (numeral (radixOf v.intType).toNat (digitChar v.intType) v.n.toNat)
    ∃ s', convertInteger cfg c d s = some s' ∧ s'.format = s.format.next ∧
      s'.count = s.count + Int32.ofNat text.length ∧
      s'.out = if cfg.handler then s.out ++ text.map Event.char else s.out := by
  intro text
  have hlead : signText d ++ prefixText v = [] := by
    unfold signText prefixText
    rw [hsign, hsharp]
    cases radixOf v.intType <;> rfl
  have heq := convertInteger_eq hv (by rw [hsign]; decide) hwidth
  rw [hlead, List.nil_append] at heq
  exact ⟨_, heq, rfl, Engine.puts_count _ _, Engine.puts_out _ _⟩

end Output

/-! ## Formats of one conversion -/

/-- The digits of a width below 100, nothing for zero. -/
def widthText (width : Nat) : List UInt8 :=
  if width = 0 then []
  else if width < 10 then [UInt8.ofNat (0x30 + width)]
  else [UInt8.ofNat (0x30 + width / 10), UInt8.ofNat (0x30 + width % 10)]

/-- A conversion with a flag for the padding, a width and a length. -/
def formatText (zero : Bool) (width : Nat) (length : List UInt8) (letter : UInt8) : List UInt8 :=
  0x25 :: ((if zero then [0x30] else []) ++ (widthText width ++ (length ++ [letter])))

/-- The call returns after it has printed the text. -/
def Prints (cfg : Config) (format : CString) (text : List UInt8) : Prop :=
  ∀ r, ProcessFormatString cfg format r ↔
    r = .returned (Int32.ofNat text.length) (if cfg.handler then text.map Event.char else [])

section Run

variable {cfg : Config} {d : Directive} {s : Engine} {r : Result}

theorem returns_inner_iff {c : UInt8} {rest : List UInt8} (hformat : s.format = .inside (c :: rest))
    {φ : Phase} (hstep : stepInner cfg c d s = .inl φ) :
    Returns (step cfg) (.inner d s) r ↔ Returns (step cfg) φ r := by
  refine returns_iff_of_step ?_
  rw [← hstep]
  simp only [step, hformat, Cursor.read]

/-- A flag or a length. -/
theorem returns_flag_iff {c : UInt8} {t : Token} (hc : classify c = t)
    (ht : t ∈ [Token.minus, .plus, .zero, .sharp, .half, .long]) {rest : List UInt8}
    (hformat : s.format = .inside (c :: rest)) :
    Returns (step cfg) (.inner d s) r ↔
      Returns (step cfg) (.inner (d.setFlag cfg t) { s with format := .inside rest }) r := by
  refine returns_inner_iff hformat ?_
  have hnext : s.format.next = .inside rest := by rw [hformat, Cursor.next]
  simp only [List.mem_cons, List.not_mem_nil, or_false] at ht
  unfold stepInner
  rw [hc, hnext]
  rcases ht with rfl | rfl | rfl | rfl | rfl | rfl <;> rfl

/-- A width starts with a digit that is not `0`. -/
theorem widthText_eq {width : Nat} (hwidth : width < 30) (hne : width ≠ 0) :
    ∃ c cs, widthText width = c :: cs ∧ classify c = .digit ∧ cs.all isdigit = true ∧
      isdigit c = true ∧
      (c :: cs).foldl (fun n c => n * 10 + Int32.ofNat (c.toNat - 0x30)) 0
        = Int32.ofNat width := by
  interval_cases width
  case «0» => exact absurd rfl hne
  all_goals exact ⟨_, _, rfl, by decide, by decide, by decide, by decide⟩

/-- A width in front of a character that is no digit. -/
theorem returns_width_iff {width : Nat} (hwidth : width < 30) {c : UInt8} {rest : List UInt8}
    (hc : isdigit c = false) (hd : d.minimumWidth = 0)
    (hformat : s.format = .inside (widthText width ++ c :: rest)) :
    Returns (step cfg) (.inner d s) r ↔ Returns (step cfg)
      (.inner { d with minimumWidth := Int32.ofNat width }
        { s with format := .inside (c :: rest) }) r := by
  by_cases hzero : width = 0
  · subst hzero
    have hd' : ({ d with minimumWidth := Int32.ofNat 0 } : Directive) = d := by
      cases d
      cases hd
      rfl
    have hs' : ({ s with format := .inside (c :: rest) } : Engine) = s := by
      cases s
      cases hformat
      rfl
    rw [hd', hs']
  · obtain ⟨c', cs, htext, hdigit, hall, hc', hvalue⟩ := widthText_eq hwidth hzero
    rw [htext] at hformat
    have htake : (cs ++ c :: rest).takeWhile isdigit = cs := by
      rw [List.takeWhile_append_of_pos (fun a ha => List.all_eq_true.mp hall a ha)]
      simp [hc]
    have hdrop : (cs ++ c :: rest).dropWhile isdigit = c :: rest := by
      rw [List.dropWhile_append_of_pos (fun a ha => List.all_eq_true.mp hall a ha)]
      simp [hc]
    refine returns_inner_iff hformat ?_
    unfold stepInner
    simp only [hdigit, hformat, List.cons_append, Cursor.skipDigits, atoi, List.takeWhile_cons, hc',
      htake, hvalue, List.dropWhile_cons, hdrop, if_true]

/-- The letters of the integer conversions. -/
def letters : List UInt8 := [0x6F, 0x70, 0x58, 0x78, 0x75, 0x64, 0x69]

/-- The lengths, as they are written. -/
def lengths : List (List UInt8 × IntegerLength) :=
  [([], .normal), ([0x68], .length16), ([0x6C, 0x6C], .length64)]

theorem returns_length_iff {length : List UInt8} {intLength : IntegerLength}
    (hlength : (length, intLength) ∈ lengths) (hd : d.intLength = .normal) {rest : List UInt8}
    (hformat : s.format = .inside (length ++ rest)) :
    Returns (step cfg) (.inner d s) r ↔ Returns (step cfg)
      (.inner { d with intLength := intLength } { s with format := .inside rest }) r := by
  simp only [lengths, List.mem_cons, Prod.mk.injEq, List.not_mem_nil, or_false] at hlength
  rcases hlength with ⟨rfl, rfl⟩ | ⟨rfl, rfl⟩ | ⟨rfl, rfl⟩
  · have hd' : ({ d with intLength := .normal } : Directive) = d := by
      cases d
      cases hd
      rfl
    have hs' : ({ s with format := .inside rest } : Engine) = s := by
      cases s
      cases hformat
      rfl
    rw [hd', hs']
  · exact returns_flag_iff (show classify 0x68 = .half by decide) (by decide) hformat
  · have hlong : classify 0x6C = .long := by decide
    rw [returns_flag_iff hlong (by decide) hformat, returns_flag_iff hlong (by decide) rfl]
    simp only [Directive.setFlag, hd]
    cases cfg.lp64 <;> simp

/-- What follows the width is neither a digit nor a `%`. -/
theorem length_append_letter {length : List UInt8} {intLength : IntegerLength}
    (hlength : (length, intLength) ∈ lengths) {letter : UInt8} (hletter : letter ∈ letters) :
    ∃ c rest, length ++ [letter] = c :: rest ∧ isdigit c = false ∧ c ≠ 0x25 := by
  have hletters : ∀ c ∈ letters, isdigit c = false ∧ c ≠ 0x25 :=
    List.all_iff_forall_prop.mp (by decide)
  simp only [lengths, List.mem_cons, Prod.mk.injEq, List.not_mem_nil, or_false] at hlength
  rcases hlength with ⟨rfl, _⟩ | ⟨rfl, _⟩ | ⟨rfl, _⟩
  · exact ⟨letter, [], rfl, hletters letter hletter⟩
  · exact ⟨0x68, [letter], rfl, by decide, by decide⟩
  · exact ⟨0x6C, [0x6C, letter], rfl, by decide, by decide⟩

/-- The directive of a conversion. -/
def directiveOf (zero : Bool) (width : Nat) (intLength : IntegerLength) : Directive where
  minimumWidth := Int32.ofNat width
  pad := if zero then 0x30 else 0x20
  intLength := intLength

/-- The flag, the width and the length of a conversion. -/
theorem returns_directive_iff {zero : Bool} {width : Nat} (hwidth : width < 30)
    {length : List UInt8} {intLength : IntegerLength} (hlength : (length, intLength) ∈ lengths)
    {letter : UInt8} (hletter : letter ∈ letters)
    (hformat : s.format = .inside ((if zero then [0x30] else [])
      ++ (widthText width ++ (length ++ [letter])))) :
    Returns (step cfg) (.inner {} s) r ↔ Returns (step cfg)
      (.inner (directiveOf zero width intLength) { s with format := .inside [letter] }) r := by
  obtain ⟨c, rest, hlengthText, hc, _⟩ := length_append_letter hlength hletter
  have htail : ∀ d s, d.minimumWidth = 0 → d.intLength = .normal →
      s.format = .inside (widthText width ++ (length ++ [letter])) →
      (Returns (step cfg) (.inner d s) r ↔ Returns (step cfg)
        (.inner { d with minimumWidth := Int32.ofNat width, intLength := intLength }
          { s with format := .inside [letter] }) r) := by
    intro d s hd hd' hs
    rw [hlengthText] at hs
    rw [returns_width_iff hwidth hc hd hs]
    refine returns_length_iff (d := { d with minimumWidth := Int32.ofNat width })
      (s := { s with format := .inside (c :: rest) }) hlength hd' ?_
    rw [hlengthText]
  cases zero with
  | false => exact htail {} s rfl rfl hformat
  | true =>
    rw [returns_flag_iff (show classify 0x30 = .zero by decide) (by decide) hformat]
    exact htail _ _ rfl rfl rfl

/-- A format starts with a single `%`. -/
theorem returns_start_iff {format : CString} {rest : List UInt8} (hformat : format.val = 0x25 :: rest)
    (hrest : rest.head? ≠ some 0x25) (hne : rest ≠ []) :
    ProcessFormatString cfg format r ↔ Returns (step cfg) (.inner {} ⟨.inside rest, 0, 0, []⟩) r := by
  refine returns_iff_of_step ?_
  cases rest with
  | nil => exact absurd rfl hne
  | cons c rest =>
    have hc : c ≠ 0x25 := fun h => hrest (by rw [h, List.head?_cons])
    unfold start
    rw [hformat]
    simp only [step, Cursor.read, Cursor.next, Option.some.injEq, hc, if_false]
    rw [if_neg (by decide), if_neg (not_not.mpr rfl)]

/-- A format of one integer conversion prints its padded numeral. -/
theorem prints_formatText {zero : Bool} {width : Nat} (hwidth : width < 30) {length : List UInt8}
    {intLength : IntegerLength} (hlength : (length, intLength) ∈ lengths) {letter : UInt8}
    (hletter : letter ∈ letters) {format : CString}
    (hformat : format.val = formatText zero width length letter) {v : Number}
    (hv : fetch cfg (directiveOf zero width intLength) (normalizeType (typeBits letter)) 0 = v)
    (hsharp : v.sharp = false) :
    Prints cfg format (padDigits (directiveOf zero width intLength)
      (numeral (radixOf v.intType).toNat (digitChar v.intType) v.n.toNat)) := by
  intro r
  have hclass : ∀ c ∈ letters, classify c = .integer := List.all_iff_forall_prop.mp (by decide)
  obtain ⟨c, rest, hlengthText, _, hc⟩ := length_append_letter hlength hletter
  have hhead : ((if zero then [0x30] else []) ++ (widthText width ++ (length ++ [letter]))).head?
      ≠ some 0x25 := by
    cases zero with
    | true => simp
    | false =>
      by_cases hzero : width = 0
      · rw [hzero, hlengthText]
        intro h
        exact hc (Option.some.inj h)
      · obtain ⟨c', cs, htext, hdigit, _⟩ := widthText_eq hwidth hzero
        rw [htext]
        intro h
        rw [Option.some.inj h] at hdigit
        exact absurd hdigit (by decide)
  have hwidthInt : (directiveOf zero width intLength).minimumWidth.toInt < 30 := by
    change (Int32.ofNat width).toInt < 30
    interval_cases width <;> decide
  rw [returns_start_iff hformat hhead (by rw [hlengthText]; simp),
    returns_directive_iff hwidth hlength hletter rfl]
  obtain ⟨s', hs', hformat', hcount, hout⟩ := convertInteger_puts (c := letter)
    (s := ⟨.inside [letter], 0, 0, []⟩) hv rfl hsharp hwidthInt
  have hinner : stepInner cfg letter (directiveOf zero width intLength)
      ⟨.inside [letter], 0, 0, []⟩ = .inl (.outer s') := by
    unfold stepInner
    rw [hclass letter hletter, hs']
  rw [returns_inner_iff rfl hinner]
  refine returns_iff_of_done ?_
  simp only [step, hformat', Cursor.next, Cursor.read, if_true, hcount, hout, Int32.zero_add,
    List.nil_append]

end Run

/-! ## Unsigned conversions -/

/-- The radix of an unsigned conversion. -/
def unsignedRadix (letter : UInt8) : Nat :=
  if letter = 0x6F then 8 else if letter = 0x75 then 10 else 16

/-- The digit of a value, in upper case for `X`. -/
def unsignedDigit (letter : UInt8) (value : Nat) : UInt8 :=
  if value < 10 then UInt8.ofNat (0x30 + value)
  else if letter = 0x58 then UInt8.ofNat (0x41 + (value - 10))
  else UInt8.ofNat (0x61 + (value - 10))

/-- The text of an unsigned conversion. -/
def unsignedText (zero : Bool) (width : Nat) (letter : UInt8) (n : Nat) : List UInt8 :=
  let text := numeral (unsignedRadix letter) (unsignedDigit letter) n
  List.replicate (width - text.length) (if zero then 0x30 else 0x20) ++ text

section Unsigned

variable {letter : UInt8}

theorem radixOf_unsigned : ∀ letter ∈ [0x75, 0x78, 0x58, 0x6F],
    (radixOf (normalizeType (typeBits letter))).toNat = unsignedRadix letter :=
  List.all_iff_forall_prop.mp (by decide)

theorem digitChar_unsigned (hletter : letter ∈ [0x75, 0x78, 0x58, 0x6F]) :
    digitChar (normalizeType (typeBits letter)) = unsignedDigit letter := by
  have hall : ∀ letter ∈ [0x75, 0x78, 0x58, 0x6F],
      (normalizeType (typeBits letter) &&& IntegerTypeUppercase ≠ 0 ↔ letter = 0x58) :=
    List.all_iff_forall_prop.mp (by decide)
  funext value
  unfold digitChar unsignedDigit
  rw [if_congr (hall letter hletter) rfl rfl]

theorem unsignedDigit_ne_zero {value : Nat} (hpos : 0 < value) (hvalue : value < 16) :
    unsignedDigit letter value ≠ 0x30 := by
  unfold unsignedDigit
  by_cases hX : letter = 0x58
  · simp only [hX, if_true]
    interval_cases value <;> decide
  · simp only [hX, if_false]
    interval_cases value <;> decide

theorem padDigits_directiveOf {zero : Bool} {width : Nat} (hwidth : width < 30)
    (intLength : IntegerLength) (text : List UInt8) :
    padDigits (directiveOf zero width intLength) text
      = List.replicate (width - text.length) (if zero then 0x30 else 0x20) ++ text := by
  have hvalue : (Int32.ofNat width).toInt = width :=
    Int32.toInt_ofNat_of_lt (by omega)
  have hcount : ((Int32.ofNat width).toInt - text.length).toNat = width - text.length := by
    rw [hvalue]
    omega
  show List.replicate ((Int32.ofNat width).toInt - text.length).toNat _ ++ text = _
  rw [hcount]
  rfl

/-- The loops over the buffer print the text. -/
theorem putNumber_unsigned (cfg : Config) (zero : Bool) {width : Nat} (hwidth : width < 30)
    (hletter : letter ∈ [0x75, 0x78, 0x58, 0x6F]) (n : UInt64) (buf : Nat) (m : Memory)
    (s s' : Engine) :
    PutNumber cfg (directiveOf zero width .length64) (radixOf (normalizeType (typeBits letter)))
      (normalizeType (typeBits letter)) n.toNat buf m s s'
      ↔ s' = s.puts cfg (unsignedText zero width letter n.toNat) := by
  have hpad : (directiveOf zero width .length64).pad ≠ 0 := by
    have hpads : ∀ zero : Bool, (if zero then (0x30 : UInt8) else 0x20) ≠ 0 := by decide
    exact hpads zero
  have hroom := (bufferSize_le_iff (directiveOf zero width .length64)
    (radixOf (normalizeType (typeBits letter))) (normalizeType (typeBits letter)) n).not.mpr (by
      show ¬ (30 : Int) ≤ (Int32.ofNat width).toInt
      rw [Int32.toInt_ofNat_of_lt (by omega)]
      omega)
  rw [putNumber_iff hpad (Nat.lt_of_not_le hroom), digits_eq_numeral, List.append_nil,
    padDigits_directiveOf hwidth, radixOf_unsigned letter hletter, digitChar_unsigned hletter]
  rfl

theorem prints_unsigned (cfg : Config) (zero : Bool) {width : Nat} (hwidth : width < 30)
    (hletter : letter ∈ [0x75, 0x78, 0x58, 0x6F]) {format : CString}
    (hformat : format.val = formatText zero width [0x6C, 0x6C] letter) :
    let n := (cfg.args.longLong 0).toUInt64.toNat
    let d := (numeral (unsignedRadix letter) (unsignedDigit letter) n).length
    Prints cfg format (unsignedText zero width letter n) ∧
      (∀ buf m s s', PutNumber cfg (directiveOf zero width .length64)
        (radixOf (normalizeType (typeBits letter))) (normalizeType (typeBits letter)) n buf m s s'
        ↔ s' = s.puts cfg (unsignedText zero width letter n)) ∧
      (unsignedText zero width letter n).length = max width d ∧
      (n ≠ 0 → (numeral (unsignedRadix letter) (unsignedDigit letter) n).head? ≠ some 0x30) := by
  intro n d
  have hletters : letter ∈ letters := by
    have hall : ∀ letter ∈ [0x75, 0x78, 0x58, 0x6F], letter ∈ letters :=
      List.all_iff_forall_prop.mp (by decide)
    exact hall letter hletter
  refine ⟨?_, putNumber_unsigned cfg zero hwidth hletter _, ?_, ?_⟩
  · have hlength : ([0x6C, 0x6C], IntegerLength.length64) ∈ lengths := by decide
    have hfetch : fetch cfg (directiveOf zero width .length64) (normalizeType (typeBits letter)) 0
        = ⟨(cfg.args.longLong 0).toUInt64, normalizeType (typeBits letter), false⟩ := rfl
    have hprints := prints_formatText hwidth hlength hletters hformat hfetch rfl
    rw [padDigits_directiveOf hwidth, radixOf_unsigned letter hletter, digitChar_unsigned hletter]
      at hprints
    exact hprints
  · unfold unsignedText
    rw [List.length_append, List.length_replicate]
    omega
  · intro hn
    have hradix : 1 < unsignedRadix letter ∧ unsignedRadix letter ≤ 16 := by
      unfold unsignedRadix
      split_ifs <;> omega
    intro hzero
    obtain ⟨value, hpos, hvalue, hhead⟩ := head?_numeral hradix.1 hn
    rw [hhead] at hzero
    exact unsignedDigit_ne_zero hpos (by omega) (Option.some.inj hzero)

/-- The largest number, with zeros up to 20 digits. -/
theorem prints_unsigned_max :
    let cfg : Config := ⟨true, true, ⟨fun _ => 0, fun _ => -1, fun _ => 0, fun _ => none⟩⟩
    Prints cfg ⟨formatText true 20 [0x6C, 0x6C] 0x58, by decide⟩
      (unsignedText true 20 0x58 (2 ^ 64 - 1)) :=
  (prints_unsigned _ true (by decide) (by decide) rfl).1

end Unsigned

/-! ## Signed conversions -/

/-- The bits of an argument that a length keeps. -/
def IntegerLength.bits : IntegerLength → Nat
  | .length64 => 64
  | .length16 => 16
  | _ => 32

/-- The value that a signed conversion is given. -/
def signedArgument (cfg : Config) : IntegerLength → Int
  | .length64 => (cfg.args.longLong 0).toInt
  | .length16 => (cfg.args.int 0).toInt16.toInt
  | _ => (cfg.args.int 0).toInt

/-- The decimal text of a number. -/
def decimalText (n : Nat) : List UInt8 := numeral 10 (fun digit => UInt8.ofNat (0x30 + digit)) n

/-- The text that shows the sign. -/
def signedText (v : Int) : List UInt8 :=
  if v < 0 then 0x2D :: decimalText (-v).toNat else decimalText v.toNat

section Signed

variable {cfg : Config} {letter : UInt8}

theorem toNat_toUInt64 (x : Int64) : (x.toUInt64.toNat : Int) = x.toInt % 2 ^ 64 := by
  have hbits : x.toUInt64.toNat = x.toBitVec.toNat := rfl
  have hvalue : x.toInt = x.toBitVec.toInt := rfl
  rw [hbits, hvalue, BitVec.toInt_eq_toNat_bmod]
  show _ = _ % ((2 ^ 64 : Nat) : Int)
  rw [Int.bmod_emod]
  exact (Int.emod_eq_of_lt (by omega) (by exact_mod_cast x.toBitVec.isLt)).symm

/-- A mask keeps the low bits. -/
theorem toNat_toUInt64_and {bits : Nat} (hbits : bits ≤ 64) {mask : UInt64}
    (hmask : mask.toNat = 2 ^ bits - 1) (x : Int64) :
    ((x.toUInt64 &&& mask).toNat : Int) = x.toInt % 2 ^ bits := by
  rw [UInt64.toNat_and, hmask, Nat.and_two_pow_sub_one_eq_mod, Int.natCast_emod, toNat_toUInt64]
  push_cast
  exact Int.emod_emod_of_dvd _ (pow_dvd_pow 2 hbits)

/-- The argument of a signed conversion, without its sign. -/
theorem fetch_signed (cfg : Config) (hletter : letter ∈ [0x64, 0x69]) (zero : Bool) (width : Nat)
    (intLength : IntegerLength) :
    ∃ n, fetch cfg (directiveOf zero width intLength) (normalizeType (typeBits letter)) 0
      = ⟨n, IntegerTypeNormal, false⟩ ∧
      (n.toNat : Int) = signedArgument cfg intLength % 2 ^ intLength.bits := by
  have hnormal : normalizeType (typeBits letter) = IntegerTypeNormal := by
    have hall : ∀ letter ∈ [0x64, 0x69], normalizeType (typeBits letter) = IntegerTypeNormal :=
      List.all_iff_forall_prop.mp (by decide)
    exact hall letter hletter
  rw [hnormal]
  cases intLength with
  | normal =>
    refine ⟨_, rfl, ?_⟩
    rw [toNat_toUInt64_and (show 32 ≤ 64 by omega) rfl, Int32.toInt_toInt64]
    rfl
  | length16 =>
    refine ⟨_, rfl, ?_⟩
    rw [toNat_toUInt64_and (show 16 ≤ 64 by omega) rfl, Int16.toInt_toInt64]
    rfl
  | length32 =>
    refine ⟨_, rfl, ?_⟩
    rw [toNat_toUInt64_and (show 32 ≤ 64 by omega) rfl, Int32.toInt_toInt64]
    rfl
  | length64 => exact ⟨_, rfl, toNat_toUInt64 _⟩

theorem signedArgument_lt (cfg : Config) (intLength : IntegerLength) :
    signedArgument cfg intLength < 2 ^ intLength.bits := by
  cases intLength with
  | length64 =>
    have hlt := (cfg.args.longLong 0).toInt_lt
    show (cfg.args.longLong 0).toInt < 2 ^ 64
    omega
  | length16 =>
    have hlt := (cfg.args.int 0).toInt16.toInt_lt
    show (cfg.args.int 0).toInt16.toInt < 2 ^ 16
    omega
  | normal | length32 =>
    have hlt := (cfg.args.int 0).toInt_lt
    show (cfg.args.int 0).toInt < 2 ^ 32
    omega

/-- A signed conversion prints the bits of its argument as a number without a sign. -/
theorem prints_signed_mod (cfg : Config) (hletter : letter ∈ [0x64, 0x69]) {length : List UInt8}
    {intLength : IntegerLength} (hlength : (length, intLength) ∈ lengths) {format : CString}
    (hformat : format.val = formatText false 0 length letter) :
    Prints cfg format (decimalText (signedArgument cfg intLength % 2 ^ intLength.bits).toNat) := by
  have hletters : letter ∈ letters := by
    have hall : ∀ letter ∈ [0x64, 0x69], letter ∈ letters :=
      List.all_iff_forall_prop.mp (by decide)
    exact hall letter hletter
  obtain ⟨n, hfetch, hn⟩ := fetch_signed cfg hletter false 0 intLength
  have hprints := prints_formatText (by decide) hlength hletters hformat hfetch rfl
  rw [padDigits_directiveOf (by decide)] at hprints
  have htext : numeral (radixOf IntegerTypeNormal).toNat (digitChar IntegerTypeNormal) n.toNat
      = decimalText n.toNat := by
    refine numeral_congr (by decide) ?_
    intro k hk
    exact if_pos hk
  have hvalue : (signedArgument cfg intLength % 2 ^ intLength.bits).toNat = n.toNat := by
    rw [← hn, Int.toNat_natCast]
  rw [hvalue, ← htext]
  simpa using hprints

/-- A format prints one text. -/
theorem Prints.unique {format : CString} {text text' : List UInt8} (hhandler : cfg.handler = true)
    (h : Prints cfg format text) (h' : Prints cfg format text') : text = text' := by
  have hr := (h' _).mp ((h _).mpr rfl)
  rw [hhandler, if_pos rfl, if_pos rfl] at hr
  injection hr with _ hout
  exact List.map_injective_iff.mpr (fun _ _ heq => Event.char.inj heq) hout

/-- No digit is a minus sign. -/
theorem minus_notMem_decimalText (n : Nat) : 0x2D ∉ decimalText n := by
  intro hmem
  obtain ⟨digit, hdigit, heq⟩ := mem_numeral (by decide) hmem
  interval_cases digit <;> exact absurd heq (by decide)

/-- A signed conversion shows the sign of no negative number. -/
theorem prints_signed_iff (hhandler : cfg.handler = true) (hletter : letter ∈ [0x64, 0x69])
    {length : List UInt8} {intLength : IntegerLength} (hlength : (length, intLength) ∈ lengths)
    {format : CString} (hformat : format.val = formatText false 0 length letter) :
    Prints cfg format (signedText (signedArgument cfg intLength))
      ↔ 0 ≤ signedArgument cfg intLength := by
  have hprints := prints_signed_mod cfg hletter hlength hformat
  have hlt := signedArgument_lt cfg intLength
  constructor
  · intro hsigned
    by_contra hneg
    have htext := hsigned.unique hhandler hprints
    unfold signedText at htext
    rw [if_pos (not_le.mp hneg)] at htext
    exact minus_notMem_decimalText _ (htext ▸ List.mem_cons_self)
  · intro hpos
    unfold signedText
    rw [if_neg (not_lt.mpr hpos)]
    rw [Int.emod_eq_of_lt hpos hlt] at hprints
    exact hprints

/-- A number that is not negative. -/
theorem prints_signed_max :
    let cfg : Config := ⟨true, true, ⟨fun _ => 0x7FFFFFFF, fun _ => 0, fun _ => 0, fun _ => none⟩⟩
    Prints cfg ⟨formatText false 0 [] 0x64, by decide⟩ (signedText (signedArgument cfg .normal))
      ↔ 0 ≤ signedArgument cfg .normal :=
  prints_signed_iff rfl (by decide) (show ([], IntegerLength.normal) ∈ lengths by decide) rfl

/-- `%d` prints 4294967295 for -1. -/
theorem not_prints_signed_minus_one :
    let cfg : Config := ⟨true, true, ⟨fun _ => -1, fun _ => 0, fun _ => 0, fun _ => none⟩⟩
    let format : CString := ⟨formatText false 0 [] 0x64, by decide⟩
    Prints cfg format (decimalText 4294967295) ∧
      ¬ Prints cfg format (signedText (signedArgument cfg .normal)) := by
  intro cfg format
  have hprints : Prints cfg format (decimalText 4294967295) :=
    prints_signed_mod cfg (show 0x64 ∈ [0x64, 0x69] by decide)
      (show ([], IntegerLength.normal) ∈ lengths by decide) rfl
  refine ⟨hprints, ?_⟩
  intro hsigned
  have htext : signedText (-1) = decimalText 4294967295 := hsigned.unique rfl hprints
  have hminus : 0x2D ∈ signedText (-1) := List.mem_cons_self
  exact minus_notMem_decimalText _ (htext ▸ hminus)

end Signed

end Xeos.Video.Printf
