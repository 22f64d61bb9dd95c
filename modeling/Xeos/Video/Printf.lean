import Mathlib
import Xeos.Lib.Loop

/-!
# The format engine of the kernel `printf`

`__XEOS_Video_ProcessFormatString`, with every directive it knows.  The format is
a cursor in a NUL-terminated string that also knows the place behind the NUL, so
that a read there can be seen.  The variable arguments are a source of values of
every type, by the number of the `va_arg`: an argument list of the types that the
directives ask for.

The engine has loops that need not end, so it is a machine for `Lib.runFor`.  One
step is one round of the outer loop, of the loop over a directive, or of the loop
over the characters of a string argument.
-/

namespace Xeos.Video.Printf

open Lib

/-! ## Data -/

/-- The bytes of a NUL-terminated string, without the NUL. -/
def CString := { bytes : List UInt8 // 0 ∉ bytes }

/-- A pointer into a NUL-terminated string: what is left before the NUL, or some
place behind the NUL. -/
inductive Cursor where
  | inside (rest : List UInt8)
  | past

/-- `*( format )`, if that is a byte of the string. -/
def Cursor.read : Cursor → Option UInt8
  | .inside [] => some 0
  | .inside (c :: _) => some c
  | .past => none

/-- `format++`. -/
def Cursor.next : Cursor → Cursor
  | .inside [] => .past
  | .inside (_ :: rest) => .inside rest
  | .past => .past

/-- The variable arguments, by position.  Each position is read at one type. -/
structure Args where
  int : Nat → Int32
  longLong : Nat → Int64
  pointer : Nat → UInt64
  /-- A `char *`, which may be `NULL`. -/
  string : Nat → Option CString

/-- What a call depends on besides the format. -/
structure Config where
  /-- `__LP64__`. -/
  lp64 : Bool
  /-- `characterHandler != NULL`. -/
  handler : Bool
  args : Args

/-- What the engine does to the world outside. -/
inductive Event where
  /-- A call of `characterHandler`. -/
  | char (c : UInt8)
  /-- The store of a `%n`. -/
  | store (p : UInt64) (count : Int32)
deriving DecidableEq

inductive Sign where
  | normal
  | none
  | always
deriving DecidableEq, Repr

inductive IntegerLength where
  | normal
  | length16
  | length32
  | length64
deriving DecidableEq, Repr

/-! The flags of `__XEOS_Video_VPrintf_Flag_IntegerType`. -/

def IntegerTypeNormal : Nat := 0x00
def IntegerTypeOctal : Nat := 0x01
def IntegerTypeHexadecimal : Nat := 0x02
def IntegerTypePointer : Nat := 0x04
def IntegerTypeUnsigned : Nat := 0x08
def IntegerTypeUppercase : Nat := 0x10

/-- The local variables of a directive, with the values it starts with. -/
structure Directive where
  minimumWidth : Int32 := 0
  precision : Int32 := 1
  pad : UInt8 := 0x20
  sharp : Bool := false
  align : Bool := false
  sign : Sign := .normal
  intLength : IntegerLength := .normal
deriving DecidableEq

/-- The variables of the call: the format, the number of characters, the number
of arguments that are used up, and what has been done so far. -/
structure Engine where
  format : Cursor
  count : Int32
  ap : Nat
  out : List Event

/-! ## Characters -/

/-- The labels of the `switch`. -/
inductive Token where
  /-- `n` -/
  | number
  /-- `-` -/
  | minus
  /-- `+` -/
  | plus
  /-- space -/
  | space
  /-- `0` -/
  | zero
  /-- `#` -/
  | sharp
  /-- `1` to `9` -/
  | digit
  /-- `*` -/
  | star
  /-- `.` -/
  | period
  /-- `h` -/
  | half
  /-- `l` -/
  | long
  /-- `L` -/
  | longDouble
  /-- `c` -/
  | char
  /-- `s` -/
  | string
  /-- `o`, `p`, `X`, `x`, `u`, `d` and `i` -/
  | integer
  /-- `f`, `F`, `a`, `A`, `g`, `G`, `e` and `E` -/
  | real
  /-- `default` -/
  | other
deriving DecidableEq, Repr

/-- The label that a character of a directive goes to. -/
def classify (c : UInt8) : Token :=
  if c = 0x6E then .number
  else if c = 0x2D then .minus
  else if c = 0x2B then .plus
  else if c = 0x20 then .space
  else if c = 0x30 then .zero
  else if c = 0x23 then .sharp
  else if 0x31 ≤ c ∧ c ≤ 0x39 then .digit
  else if c = 0x2A then .star
  else if c = 0x2E then .period
  else if c = 0x68 then .half
  else if c = 0x6C then .long
  else if c = 0x4C then .longDouble
  else if c = 0x63 then .char
  else if c = 0x73 then .string
  else if c ∈ [0x6F, 0x70, 0x58, 0x78, 0x75, 0x64, 0x69] then .integer
  else if c ∈ [0x66, 0x46, 0x61, 0x41, 0x67, 0x47, 0x65, 0x45] then .real
  else .other

/-- `isdigit` in the default locale. -/
def isdigit (c : UInt8) : Bool := decide (0x30 ≤ c ∧ c ≤ 0x39)

/-- `atoi` of a text that starts with a digit. -/
def atoi (text : List UInt8) : Int32 :=
  (text.takeWhile isdigit).foldl (fun n c => n * 10 + Int32.ofNat (c.toNat - 0x30)) 0

/-! ## Output -/

/-- `if( characterHandler != NULL ) characterHandler( c );` and `count++`. -/
def Engine.put (cfg : Config) (c : UInt8) (s : Engine) : Engine :=
  { s with
    out := if cfg.handler then s.out ++ [.char c] else s.out
    count := s.count + 1 }

/-- Several characters in turn. -/
def Engine.puts (cfg : Config) (cs : List UInt8) (s : Engine) : Engine :=
  cs.foldl (fun s c => s.put cfg c) s

/-! ## The conversion of a character -/

/-- `case 'c'`. -/
def convertChar (cfg : Config) (d : Directive) (s : Engine) : Engine :=
  let c := (cfg.args.int s.ap).toUInt32.toUInt8
  let pads := List.replicate (d.minimumWidth.toInt - 1).toNat d.pad
  let s := { s with ap := s.ap + 1 }
  let s := if d.align = false then s.puts cfg pads else s
  let s := s.put cfg c
  let s := if d.align = true then s.puts cfg pads else s
  { s with format := s.format.next }

/-! ## The conversion of an integer -/

/-- The bits that the fall-through from `case 'o'` to `case 'u'` collects. -/
def typeBits (c : UInt8) : Nat :=
  if c = 0x6F then
    IntegerTypeOctal ||| IntegerTypePointer ||| IntegerTypeUppercase ||| IntegerTypeHexadecimal
      ||| IntegerTypeUnsigned
  else if c = 0x70 then
    IntegerTypePointer ||| IntegerTypeUppercase ||| IntegerTypeHexadecimal ||| IntegerTypeUnsigned
  else if c = 0x58 then IntegerTypeUppercase ||| IntegerTypeHexadecimal ||| IntegerTypeUnsigned
  else if c = 0x78 then IntegerTypeHexadecimal ||| IntegerTypeUnsigned
  else if c = 0x75 then IntegerTypeUnsigned
  else IntegerTypeNormal

/-- The flags that are kept of these bits. -/
def normalizeType (t : Nat) : Nat :=
  if t &&& IntegerTypeOctal ≠ 0 then IntegerTypeOctal
  else if t &&& IntegerTypePointer ≠ 0 then IntegerTypePointer
  else if t &&& IntegerTypeHexadecimal ≠ 0 then
    if t &&& IntegerTypeUppercase ≠ 0 then IntegerTypeHexadecimal ||| IntegerTypeUppercase
    else IntegerTypeHexadecimal
  else t

/-- The argument with the flags and the `sharp` that go on with it. -/
structure Number where
  n : UInt64
  intType : Nat
  sharp : Bool

/-- The `va_arg` of an integer conversion. -/
def fetch (cfg : Config) (d : Directive) (t ap : Nat) : Number :=
  if d.intLength = .length64 then ⟨(cfg.args.longLong ap).toUInt64, t, d.sharp⟩
  else if d.intLength = .length16 then
    ⟨(cfg.args.int ap).toInt16.toInt64.toUInt64 &&& 0xFFFF, t, d.sharp⟩
  else if t &&& IntegerTypePointer ≠ 0 then
    ⟨if cfg.lp64 then cfg.args.pointer ap else cfg.args.pointer ap &&& 0xFFFFFFFF,
      IntegerTypeHexadecimal ||| IntegerTypeUppercase, true⟩
  else ⟨(cfg.args.int ap).toInt64.toUInt64 &&& 0xFFFFFFFF, t, d.sharp⟩

/-- The part on the sign, with the number that it leaves. -/
def putSign (cfg : Config) (d : Directive) (v : Number) (s : Engine) : UInt64 × Engine :=
  if d.sign = .none then (v.n, s)
  else
    let positive := if v.intType &&& IntegerTypeNormal ≠ 0 then decide (0 ≤ v.n.toInt64.toInt)
      else true
    if positive = false then ((-v.n.toInt64).toUInt64, s.put cfg 0x2D)
    else if d.sign = .always then (v.n, s.put cfg 0x2B)
    else (v.n, s)

inductive Radix where
  | octal
  | decimal
  | hexadecimal
deriving DecidableEq, Repr

def Radix.toNat : Radix → Nat
  | .octal => 8
  | .decimal => 10
  | .hexadecimal => 16

def radixOf (intType : Nat) : Radix :=
  if intType &&& IntegerTypeOctal ≠ 0 then .octal
  else if intType &&& IntegerTypeHexadecimal ≠ 0 then .hexadecimal
  else .decimal

/-- The prefix of the alternate form. -/
def putSharp (cfg : Config) (v : Number) (n : UInt64) (s : Engine) : Engine :=
  match radixOf v.intType with
  | .octal => if v.sharp = true ∧ n ≠ 0 then s.put cfg 0x30 else s
  | .hexadecimal => if v.sharp = true then s.puts cfg [0x30, 0x78] else s
  | .decimal => s

/-- One digit, in the case that the flags select. -/
def digitChar (intType digit : Nat) : UInt8 :=
  if digit < 10 then UInt8.ofNat (0x30 + digit)
  else if intType &&& IntegerTypeUppercase ≠ 0 then UInt8.ofNat (0x41 + (digit - 10))
  else UInt8.ofNat (0x61 + (digit - 10))

/-- The `do ... while( n > 0 )` loop.  Each round moves the digits in the buffer by
one place and writes the next one in front of them. -/
def digits (radix : Radix) (intType n : Nat) (buf : List UInt8) : List UInt8 :=
  if n / radix.toNat = 0 then digitChar intType (n % radix.toNat) :: buf
  else digits radix intType (n / radix.toNat) (digitChar intType (n % radix.toNat) :: buf)
termination_by n
decreasing_by
  cases radix <;> simp only [Radix.toNat] at * <;> omega

/-- The digits, with the padding up to the minimum width. -/
def padDigits (d : Directive) (buf : List UInt8) : List UInt8 :=
  let pads := List.replicate (d.minimumWidth.toInt - buf.length).toNat d.pad
  if d.align then buf ++ pads else pads ++ buf

/-- `sizeof( buf )`. -/
def bufferSize : Nat := 30

/-- The cases of the integer conversions.  The text and its NUL have to fit in the
buffer: otherwise the routine writes or reads behind it, and there is no result. -/
def convertInteger (cfg : Config) (c : UInt8) (d : Directive) (s : Engine) : Option Engine :=
  let v := fetch cfg d (normalizeType (typeBits c)) s.ap
  let s := { s with ap := s.ap + 1 }
  let (n, s) := putSign cfg d v s
  let s := putSharp cfg v n s
  let text := padDigits d (digits (radixOf v.intType) v.intType n.toNat [])
  if bufferSize ≤ text.length then none
  else some { s.puts cfg text with format := s.format.next }

/-! ## The machine -/

inductive Phase where
  /-- `while( *( format ) != 0 )`. -/
  | outer (s : Engine)
  /-- The `do ... while` loop over the characters of a directive. -/
  | inner (d : Directive) (s : Engine)
  /-- `while( *( s ) != 0 )` over a string argument. -/
  | string (d : Directive) (len : Nat) (bytes : List UInt8) (s : Engine)

inductive Result where
  | returned (count : Int32) (out : List Event)
  /-- A read of the format behind its NUL. -/
  | overread
  /-- An access outside the buffer of the digits. -/
  | overflow

/-- `( size_t )minimumWidth`. -/
def widthSize (cfg : Config) (d : Directive) : Nat :=
  (d.minimumWidth.toInt % (if cfg.lp64 then 2 ^ 64 else 2 ^ 32)).toNat

/-- `(null)`. -/
def nullText : List UInt8 := [0x28, 0x6E, 0x75, 0x6C, 0x6C, 0x29]

/-- `case 's'` up to its loop.  `strlen` returns zero for `NULL`.  The loop over the
padding leaves `len` behind the width. -/
def startString (cfg : Config) (d : Directive) (s : Engine) : Phase :=
  let arg := cfg.args.string s.ap
  let bytes := (arg.map Subtype.val).getD nullText
  let len := (arg.map fun str => str.val.length).getD 0
  let s := { s with ap := s.ap + 1 }
  if d.align = false ∧ len < widthSize cfg d then
    .string d (widthSize cfg d + 1) bytes
      (s.puts cfg (List.replicate (widthSize cfg d - len) d.pad))
  else .string d len bytes s

/-- `case 's'` after its loop. -/
def endString (cfg : Config) (d : Directive) (len : Nat) (s : Engine) : Engine :=
  let s := if d.align = true ∧ len < widthSize cfg d then
      s.puts cfg (List.replicate (widthSize cfg d - len) d.pad)
    else s
  { s with format := s.format.next }

/-- The directive after a flag or a length. -/
def Directive.setFlag (cfg : Config) (t : Token) (d : Directive) : Directive :=
  match t with
  | .minus => { d with align := true }
  | .plus => { d with sign := .always }
  | .space => { d with sign := .none }
  | .zero => { d with pad := 0x30 }
  | .sharp => { d with sharp := true }
  | .half => { d with intLength := .length16 }
  | .long =>
    { d with
      intLength :=
        if d.intLength = .length32 ∨ d.intLength = .length64 then .length64
        else if cfg.lp64 then .length64 else .length32 }
  | _ => d

/-- What is left of the format after the digits at its start. -/
def Cursor.skipDigits : Cursor → Cursor
  | .inside rest => .inside (rest.dropWhile isdigit)
  | .past => .past

/-- `case '.'`. -/
def stepPrecision (cfg : Config) (d : Directive) (s : Engine) : Phase :=
  let s := { s with format := s.format.next }
  match s.format with
  | .inside (c :: rest) =>
    if c = 0x2A then
      .inner { d with precision := cfg.args.int s.ap }
        { s with format := .inside rest, ap := s.ap + 1 }
    else if isdigit c then
      .inner { d with precision := atoi (c :: rest) }
        { s with format := (Cursor.inside (c :: rest)).skipDigits }
    else .inner { d with precision := 0 } s
  | _ => .inner { d with precision := 0 } s

/-- One round of the loop over a directive, at the character `c`. -/
def stepInner (cfg : Config) (c : UInt8) (d : Directive) (s : Engine) : Phase ⊕ Result :=
  match classify c with
  | .number =>
    .inl (.inner d { s with
      out := s.out ++ [.store (cfg.args.pointer s.ap) s.count]
      ap := s.ap + 1
      format := s.format.next })
  | .digit =>
    match s.format with
    | .inside rest =>
      .inl (.inner { d with minimumWidth := atoi rest } { s with format := s.format.skipDigits })
    | .past => .inr .overread
  | .star =>
    .inl (.inner { d with minimumWidth := cfg.args.int s.ap }
      { s with ap := s.ap + 1, format := s.format.next })
  | .period => .inl (stepPrecision cfg d s)
  | .longDouble => .inl (.inner d s)
  | .char => .inl (.outer (convertChar cfg d s))
  | .string => .inl (startString cfg d s)
  | .integer =>
    match convertInteger cfg c d s with
    | some s => .inl (.outer s)
    | none => .inr .overflow
  | .real => .inl (.outer { s with ap := s.ap + 1, format := s.format.next })
  | .other => .inl (.outer { s with format := s.format.next })
  | t => .inl (.inner (d.setFlag cfg t) { s with format := s.format.next })

/-- One round of one of the three loops. -/
def step (cfg : Config) : Phase → Phase ⊕ Result
  | .outer s =>
    match s.format.read with
    | none => .inr .overread
    | some c =>
      if c = 0 then .inr (.returned s.count s.out)
      else if c ≠ 0x25 then .inl (.outer { s.put cfg c with format := s.format.next })
      else
        let s := { s with format := s.format.next }
        if s.format.read = some 0x25 then
          .inl (.outer { s.put cfg 0x25 with format := s.format.next })
        else .inl (.inner {} s)
  | .inner d s =>
    match s.format.read with
    | none => .inr .overread
    | some c => stepInner cfg c d s
  | .string d len bytes s =>
    match bytes with
    | [] => .inl (.outer (endString cfg d len s))
    | c :: rest =>
      -- the pointer only advances in the argument of the handler
      if cfg.handler then .inl (.string d len rest (s.put cfg c))
      else .inl (.string d len (c :: rest) (s.put cfg c))

/-- The state at the start of a call. -/
def start (format : CString) : Phase := .outer ⟨.inside format.val, 0, 0, []⟩

/-- `__XEOS_Video_ProcessFormatString` ends, with the result `r`. -/
def ProcessFormatString (cfg : Config) (format : CString) (r : Result) : Prop :=
  Returns (step cfg) (start format) r

end Xeos.Video.Printf
