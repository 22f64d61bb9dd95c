import Xeos.C99.String
import Xeos.Lib.Bytes

/-!
# `atoi`

`atoi` of `lib/c99/stdlib/atoi.c`, with `isspace` and `isdigit`, which look into the tables of
the current locale.  The only locale that the library has is the one for `C`.

There is no step for a sign: at a `+` or a `-` the function returns 0.
-/

namespace Xeos.System.Locale

/-- The classes of `struct __System_Locale_CType` that `atoi` comes to, each with its count. -/
structure CharClasses where
  digit : List Int32
  space : List Int32

/-- The loops of the functions `System_Locale_CType_Is*`. -/
def inClass : List Int32 → Int32 → Bool
  | [], _ => false
  | x :: xs, c => if x = c then true else inClass xs c

/-- `System_Locale_CType_IsDigit`. -/
def IsDigit (ctype : Option CharClasses) (c : Int32) : Bool :=
  match ctype with
  | none => false
  | some t => inClass t.digit c

/-- `System_Locale_CType_IsSpace`. -/
def IsSpace (ctype : Option CharClasses) (c : Int32) : Bool :=
  match ctype with
  | none => false
  | some t => inClass t.space c

/-- `__System_Locale_DefaultLocale_CType`. -/
def defaultClasses : CharClasses where
  digit := [0x30, 0x31, 0x32, 0x33, 0x34, 0x35, 0x36, 0x37, 0x38, 0x39]
  space := [0x09, 0x0A, 0x0B, 0x0C, 0x0D, 0x20]

end Xeos.System.Locale

namespace Xeos.C99

open Lib Xeos.System.Locale

/-- A `char`, which is signed, as an `int`. -/
def charAt (m : Memory) (a : Nat) : Int32 := (m a).toInt8.toInt32

def isspace (c : Int32) : Bool := IsSpace (some defaultClasses) c

def isdigit (c : Int32) : Bool := IsDigit (some defaultClasses) c

/-- The first loop of `atoi`. -/
def atoiSpaces (m : Memory) : Nat → Nat → Option Nat
  | 0, _ => none
  | fuel + 1, nptr => if isspace (charAt m nptr) then atoiSpaces m fuel (nptr + 1) else some nptr

/-- The second one.  An `int` that overflows wraps around. -/
def atoiDigits (m : Memory) : Nat → Int32 → Nat → Option Int32
  | 0, _, _ => none
  | fuel + 1, n, nptr =>
    if isdigit (charAt m nptr) then
      atoiDigits m fuel (n * 10 + (charAt m nptr - 0x30)) (nptr + 1)
    else some n

/-- `atoi`, where `fuel` is a bound for the rounds of each loop. -/
def atoi (m : Memory) (fuel nptr : Nat) : Option Int32 :=
  (atoiSpaces m fuel nptr).bind (atoiDigits m fuel 0)

/-! ## Numerals -/

inductive Sign where
  | plus | minus
deriving DecidableEq, Repr

def Sign.char : Sign → UInt8
  | plus => 0x2B
  | minus => 0x2D

def whiteSpace : List UInt8 := [0x09, 0x0A, 0x0B, 0x0C, 0x0D, 0x20]

def Decimal (c : UInt8) : Prop := 0x30 ≤ c ∧ c ≤ 0x39

instance : DecidablePred Decimal := fun c => inferInstanceAs (Decidable (0x30 ≤ c ∧ c ≤ 0x39))

/-- The number that a run of digits stands for. -/
def magnitude (digits : List UInt8) : Nat := digits.foldl (fun n c => 10 * n + (c.toNat - 0x30)) 0

def signedValue (sign : Option Sign) (digits : List UInt8) : Int :=
  if sign = some .minus then -(magnitude digits : Int) else magnitude digits

/-- White space, a sign or none, digits whose value fits an `int`, and something else. -/
structure Numeral where
  space : List UInt8
  sign : Option Sign
  digits : List UInt8
  rest : List UInt8
  space_white : ∀ c ∈ space, c ∈ whiteSpace
  digits_ne_nil : digits ≠ []
  digits_decimal : ∀ c ∈ digits, Decimal c
  rest_stops : ¬ Decimal (rest.headD 0)
  fits : -2 ^ 31 ≤ signedValue sign digits ∧ signedValue sign digits < 2 ^ 31

namespace Numeral

def text (num : Numeral) : List UInt8 :=
  num.space ++ ((num.sign.map Sign.char).toList ++ (num.digits ++ num.rest))

def value (num : Numeral) : Int := signedValue num.sign num.digits

end Numeral

/-! ## The loops -/

/-- The classes of every byte, and the value of a digit. -/
theorem byte_classes : ∀ n : Fin 256,
    isspace (UInt8.ofNat n).toInt8.toInt32 = decide (UInt8.ofNat n ∈ whiteSpace) ∧
      isdigit (UInt8.ofNat n).toInt8.toInt32 = decide (Decimal (UInt8.ofNat n)) ∧
      (Decimal (UInt8.ofNat n) →
        (UInt8.ofNat n).toInt8.toInt32 - 0x30
          = Int32.ofInt ((UInt8.ofNat n).toNat - 0x30 : Nat)) := by
  decide +kernel

theorem Decimal.not_mem_whiteSpace {c : UInt8} (h : Decimal c) : c ∉ whiteSpace := by
  intro hmem
  simp only [whiteSpace, List.mem_cons, List.not_mem_nil, or_false] at hmem
  rcases hmem with rfl | rfl | rfl | rfl | rfl | rfl <;> exact absurd h (by decide)

section Loops

variable {m : Memory} {a fuel : Nat} {text : List UInt8}

theorem isspace_charAt (m : Memory) (a : Nat) :
    isspace (charAt m a) = decide (m a ∈ whiteSpace) := by
  have h := (byte_classes ⟨(m a).toNat, (m a).toNat_lt⟩).1
  rwa [UInt8.ofNat_toNat] at h

theorem isdigit_charAt (m : Memory) (a : Nat) : isdigit (charAt m a) = decide (Decimal (m a)) := by
  have h := (byte_classes ⟨(m a).toNat, (m a).toNat_lt⟩).2.1
  rwa [UInt8.ofNat_toNat] at h

theorem charAt_sub (h : Decimal (m a)) :
    charAt m a - 0x30 = Int32.ofInt ((m a).toNat - 0x30 : Nat) := by
  have hbyte := (byte_classes ⟨(m a).toNat, (m a).toNat_lt⟩).2.2
  rw [UInt8.ofNat_toNat] at hbyte
  exact hbyte h

theorem atoiSpaces_cstring {space : List UInt8} (h : CString m a (space ++ text))
    (hspace : ∀ c ∈ space, c ∈ whiteSpace) (hstop : text.headD 0 ∉ whiteSpace)
    (hfuel : space.length < fuel) : atoiSpaces m fuel a = some (a + space.length) := by
  induction space generalizing a fuel with
  | nil =>
    rcases fuel with _ | fuel
    · exact absurd hfuel (Nat.not_lt_zero _)
    have hhead : m a = text.headD 0 := h.head
    rw [atoiSpaces, isspace_charAt, hhead, decide_eq_false hstop]
    rfl
  | cons c space ih =>
    rcases fuel with _ | fuel
    · exact absurd hfuel (Nat.not_lt_zero _)
    rcases h with ⟨hc, -, hrest⟩
    rw [atoiSpaces, isspace_charAt, hc, decide_eq_true (hspace c List.mem_cons_self), if_pos rfl,
      ih hrest (fun c hc => hspace c (List.mem_cons_of_mem _ hc)) (Nat.lt_of_succ_lt_succ hfuel),
      List.length_cons]
    congr 1
    omega

/-- The loop over the digits carries their value on. -/
theorem atoiDigits_cstring {digits : List UInt8} {n : Nat} (h : CString m a (digits ++ text))
    (hdigits : ∀ c ∈ digits, Decimal c) (hstop : ¬ Decimal (text.headD 0))
    (hfuel : digits.length < fuel) :
    atoiDigits m fuel (Int32.ofInt n) a
      = some (Int32.ofInt (digits.foldl (fun n c => 10 * n + (c.toNat - 0x30)) n : Nat)) := by
  induction digits generalizing a fuel n with
  | nil =>
    rcases fuel with _ | fuel
    · exact absurd hfuel (Nat.not_lt_zero _)
    have hhead : m a = text.headD 0 := h.head
    rw [atoiDigits, isdigit_charAt, hhead, decide_eq_false hstop]
    rfl
  | cons c digits ih =>
    rcases fuel with _ | fuel
    · exact absurd hfuel (Nat.not_lt_zero _)
    rcases h with ⟨hc, -, hrest⟩
    have hdecimal : Decimal (m a) := hc ▸ hdigits c List.mem_cons_self
    have hround : Int32.ofInt n * 10 + (charAt m a - 0x30)
        = Int32.ofInt (10 * n + (c.toNat - 0x30) : Nat) := by
      rw [charAt_sub hdecimal, hc, Nat.cast_add, Nat.cast_mul, Int32.ofInt_add, Int32.ofInt_mul,
        Int32.mul_comm]
      rfl
    rw [atoiDigits, isdigit_charAt, decide_eq_true hdecimal, if_pos rfl, hround,
      ih hrest (fun c hc => hdigits c (List.mem_cons_of_mem _ hc)) (Nat.lt_of_succ_lt_succ hfuel)]
    rfl

end Loops

namespace Numeral

variable {m : Memory} {a fuel : Nat} {num : Numeral}

theorem headD_digits (num : Numeral) : Decimal ((num.digits ++ num.rest).headD 0) := by
  obtain ⟨d, ds, hds⟩ := List.exists_cons_of_ne_nil num.digits_ne_nil
  rw [hds]
  exact num.digits_decimal d (hds ▸ List.mem_cons_self)

/-- Behind the white space. -/
theorem atoi_eq (h : CString m a num.text) (hfuel : num.text.length < fuel) :
    atoi m fuel a = atoiDigits m fuel 0 (a + num.space.length) := by
  have hstop : ((num.sign.map Sign.char).toList ++ (num.digits ++ num.rest)).headD 0
      ∉ whiteSpace := by
    rcases num.sign with _ | sign
    · exact num.headD_digits.not_mem_whiteSpace
    · show sign.char ∉ whiteSpace
      cases sign <;> decide
  rw [text, List.length_append] at hfuel
  rw [atoi, atoiSpaces_cstring h num.space_white hstop (by omega), Option.bind_some]

/-- Without a sign `atoi` returns the value, and with one it returns 0. -/
theorem atoi_text (h : CString m a num.text) (hfuel : num.text.length < fuel) :
    atoi m fuel a = some (if num.sign = none then Int32.ofInt num.value else 0) := by
  rw [atoi_eq h hfuel]
  have htail := h.append
  rw [text, List.length_append, List.length_append, List.length_append] at hfuel
  cases hsign : num.sign with
  | none =>
    rw [hsign] at htail
    change CString m _ (num.digits ++ num.rest) at htail
    have hdigits := @atoiDigits_cstring _ _ fuel _ _ 0 htail num.digits_decimal num.rest_stops
      (by omega)
    rw [if_pos rfl, value, signedValue, hsign, if_neg nofun]
    exact hdigits
  | some sign =>
    rw [hsign] at htail
    rcases fuel with _ | fuel
    · exact absurd hfuel (Nat.not_lt_zero _)
    have hchar : m (a + num.space.length) = sign.char := htail.1
    have hnot : ¬ Decimal sign.char := by
      cases sign <;> decide
    rw [atoiDigits, isdigit_charAt, hchar, decide_eq_false hnot, if_neg Bool.false_ne_true,
      if_neg nofun]

end Numeral

/-- `atoi` returns the value of the numeral. -/
def Decodes (m : Memory) (a : Nat) (num : Numeral) : Prop :=
  ∀ fuel, num.text.length < fuel → atoi m fuel a = some (Int32.ofInt num.value)

/-- `atoi` is right about numerals without a sign, and about zero. -/
theorem atoi_decodes_iff (m : Memory) (a : Nat) (num : Numeral) (h : CString m a num.text) :
    Decodes m a num ↔ num.sign = none ∨ num.value = 0 := by
  have hzero : Int32.ofInt num.value = 0 ↔ num.value = 0 := by
    constructor
    · intro heq
      have hto : (Int32.ofInt num.value).toInt = num.value :=
        Int32.toInt_ofInt_of_le num.fits.1 num.fits.2
      rw [← hto, heq]
      rfl
    · intro heq
      rw [heq]
      rfl
  constructor
  · intro hdecodes
    by_contra hnot
    rw [not_or] at hnot
    have hret := hdecodes (num.text.length + 1) (Nat.lt_succ_self _)
    rw [num.atoi_text h (Nat.lt_succ_self _), if_neg hnot.1] at hret
    exact hnot.2 (hzero.mp (Option.some.inj hret).symm)
  · intro hor fuel hfuel
    rw [num.atoi_text h hfuel]
    by_cases hsign : num.sign = none
    · rw [if_pos hsign]
    · rw [if_neg hsign, hzero.mpr (hor.resolve_left hsign)]

/-- The numeral `-5`. -/
def minusFive : Numeral where
  space := []
  sign := some .minus
  digits := [0x35]
  rest := []
  space_white := nofun
  digits_ne_nil := nofun
  digits_decimal := List.forall_mem_singleton.mpr (by decide)
  rest_stops := by decide
  fits := by decide

/-- The numeral ` 42)`. -/
def fortyTwo : Numeral where
  space := [0x20]
  sign := none
  digits := [0x34, 0x32]
  rest := [0x29]
  space_white := List.forall_mem_singleton.mpr (by decide)
  digits_ne_nil := nofun
  digits_decimal := List.forall_mem_cons.mpr
    ⟨by decide, List.forall_mem_singleton.mpr (by decide)⟩
  rest_stops := by decide
  fits := by decide

theorem atoi_decodes_iff_fortyTwo :
    Decodes (Memory.write (fun _ => 0) 0x1000 fortyTwo.text) 0x1000 fortyTwo ↔
      fortyTwo.sign = none ∨ fortyTwo.value = 0 :=
  atoi_decodes_iff _ _ _ (by decide)

/-- `atoi` returns 0 for `-5`. -/
theorem not_decodes_minusFive :
    CString (Memory.write (fun _ => 0) 0x1000 minusFive.text) 0x1000 minusFive.text ∧
      ¬ Decodes (Memory.write (fun _ => 0) 0x1000 minusFive.text) 0x1000 minusFive := by
  exact ⟨by decide, fun h => absurd (h 3 (by decide)) (by decide)⟩

end Xeos.C99
