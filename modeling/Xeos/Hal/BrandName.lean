import Mathlib.Data.List.TakeWhile
import Xeos.Lib.Loop

/-!
# The brand name of the processor

`XEOS_HAL_CPU_GetBrandName`.  The processor gives the name in twelve registers, and the
function keeps their 48 bytes in a buffer of 48 bytes, so that there is a NUL behind the name
only if the processor sent one.  An access outside the buffer has no result.
-/

namespace Xeos.Hal.Cpu

open Lib

/-! ## The buffer -/

/-- The size of `__XEOS_HAL_CPU_BrandName`. -/
def brandNameSize : Nat := 48

/-- `__XEOS_HAL_CPU_BrandName`. -/
structure Buffer where
  bytes : List UInt8
  length_bytes : bytes.length = brandNameSize

namespace Buffer

def read (b : Buffer) (i : Nat) : Option UInt8 := b.bytes[i]?

def write (b : Buffer) (i : Nat) (c : UInt8) : Option Buffer :=
  if i < brandNameSize then some ⟨b.bytes.set i c, by rw [List.length_set, b.length_bytes]⟩
  else none

/-- `memcpy( &( __XEOS_HAL_CPU_BrandName[ i ] ), ... )`, with the bytes of the source. -/
def memcpy (b : Buffer) (i : Nat) (source : List UInt8) : Option Buffer :=
  if h : i + source.length ≤ brandNameSize then
    some ⟨b.bytes.take i ++ (source ++ b.bytes.drop (i + source.length)), by
      have hlen := b.length_bytes
      simp only [List.length_append, List.length_take, List.length_drop]
      omega⟩
  else none

/-- `memset( &( __XEOS_HAL_CPU_BrandName[ 0 ] ), c, n )`. -/
def memset (b : Buffer) (c : UInt8) (n : Nat) : Option Buffer := b.memcpy 0 (List.replicate n c)

end Buffer

/-- `strlen` of the text at the start of some bytes that end where the buffer ends. -/
def strlen : List UInt8 → Option Nat
  | [] => none
  | c :: rest => if c = 0 then some 0 else (strlen rest).map (· + 1)

/-! ## The code -/

/-- The results of a `CPUID`. -/
structure Registers where
  eax : UInt32
  ebx : UInt32
  ecx : UInt32
  edx : UInt32

/-- The four bytes of a register in memory. -/
def registerBytes (v : UInt32) : List UInt8 :=
  [v.toUInt8, (v >>> 8).toUInt8, (v >>> 16).toUInt8, (v >>> 24).toUInt8]

/-- `__XEOS_HAL_CPU_BrandName` and `__XEOS_HAL_CPU_HasBrandName`. -/
structure State where
  BrandName : Buffer
  HasBrandName : Bool

/-- The registers, from the start of the buffer on. -/
def copyRegisters (cpuid : UInt32 → Registers) (b : Buffer) : Option Buffer := do
  let b ← b.memset 0 13
  let r := cpuid 0x80000002
  let b ← b.memcpy 0x00 (registerBytes r.eax)
  let b ← b.memcpy 0x04 (registerBytes r.ebx)
  let b ← b.memcpy 0x08 (registerBytes r.ecx)
  let b ← b.memcpy 0x0C (registerBytes r.edx)
  let r := cpuid 0x80000003
  let b ← b.memcpy 0x10 (registerBytes r.eax)
  let b ← b.memcpy 0x14 (registerBytes r.ebx)
  let b ← b.memcpy 0x18 (registerBytes r.ecx)
  let b ← b.memcpy 0x1C (registerBytes r.edx)
  let r := cpuid 0x80000004
  let b ← b.memcpy 0x20 (registerBytes r.eax)
  let b ← b.memcpy 0x24 (registerBytes r.ebx)
  let b ← b.memcpy 0x28 (registerBytes r.ecx)
  b.memcpy 0x2C (registerBytes r.edx)

/-- `while( __XEOS_HAL_CPU_BrandName[ i ] == ' ' ) i++;`, for the bytes from `i` on. -/
def skipSpaces : List UInt8 → Nat → Option Nat
  | [], _ => none
  | c :: rest, i => if c = 0x20 then skipSpaces rest (i + 1) else some i

/-- One round of the loop that moves the text to the start. -/
def moveStep (i : Nat) : Nat × Buffer → (Nat × Buffer) ⊕ Option Buffer
  | (j, b) =>
    match strlen b.bytes with
    | none => .inr none
    | some n =>
      if j < n then
        match (b.read (i + j)).bind (b.write j) with
        | none => .inr none
        | some b => .inl (j + 1, b)
      else .inr (some b)

/-- `XEOS_HAL_CPU_GetBrandName` ends, in the state `r` or with an access outside the buffer. -/
def GetBrandName (cpuid : UInt32 → Registers) (s : State) (r : Option State) : Prop :=
  if s.HasBrandName = false then
    match copyRegisters cpuid s.BrandName with
    | none => r = none
    | some b =>
      match skipSpaces b.bytes 0 with
      | none => r = none
      | some i => ∃ result, Returns (moveStep i) (0, b) result ∧ r = result.map (⟨·, true⟩)
  else r = some s

/-! ## What the name should be -/

/-- The twelve registers. -/
def brandRegisters (cpuid : UInt32 → Registers) : List UInt32 :=
  [cpuid 0x80000002, cpuid 0x80000003, cpuid 0x80000004].flatMap fun r =>
    [r.eax, r.ebx, r.ecx, r.edx]

/-- Their bytes. -/
def brandBytes (cpuid : UInt32 → Registers) : List UInt8 :=
  (brandRegisters cpuid).flatMap registerBytes

/-- The text before the first NUL, without the spaces in front of it. -/
def brandText (bytes : List UInt8) : List UInt8 :=
  (bytes.takeWhile (· ≠ 0)).dropWhile (· = 0x20)

/-- The first call ends without an access outside the buffer and leaves the text and its NUL
there, and every later call leaves it as it is. -/
def Decodes (cpuid : UInt32 → Registers) (s : State) : Prop :=
  ∃ s', GetBrandName cpuid s (some s') ∧
    (∃ rest, s'.BrandName.bytes = brandText (brandBytes cpuid) ++ 0 :: rest) ∧
    ∀ later r, GetBrandName later s' r ↔ r = some s'

/-! ## The copy of the registers -/

theorem Buffer.memcpy_eq {b : Buffer} {done source rest : List UInt8}
    (hb : b.bytes = done ++ rest) (hlen : source.length ≤ rest.length) :
    ∃ b', b.memcpy done.length source = some b' ∧
      b'.bytes = (done ++ source) ++ rest.drop source.length := by
  have hsize := b.length_bytes
  rw [hb, List.length_append] at hsize
  refine ⟨_, dif_pos (by omega), ?_⟩
  simp only [hb, List.take_left, List.append_assoc]
  rw [← List.drop_drop, List.drop_left]

/-- Registers one behind the other, from the offset `i` on. -/
def copyAll : List UInt32 → Nat → Buffer → Option Buffer
  | [], _, b => some b
  | v :: vs, i, b => (b.memcpy i (registerBytes v)).bind (copyAll vs (i + 4))

theorem copyAll_eq (vs : List UInt32) {b : Buffer} {done rest : List UInt8}
    (hb : b.bytes = done ++ rest) (hlen : 4 * vs.length ≤ rest.length) :
    ∃ b', copyAll vs done.length b = some b' ∧
      b'.bytes = (done ++ vs.flatMap registerBytes) ++ rest.drop (4 * vs.length) := by
  induction vs generalizing b done rest with
  | nil => exact ⟨b, rfl, by simpa using hb⟩
  | cons v vs ih =>
    rw [List.length_cons] at hlen
    have hfour : (registerBytes v).length = 4 := rfl
    obtain ⟨b1, hcopy, hb1⟩ := Buffer.memcpy_eq hb (show (registerBytes v).length ≤ _ by omega)
    obtain ⟨b2, hrest, hb2⟩ := ih hb1 (by rw [List.length_drop]; omega)
    refine ⟨b2, ?_, ?_⟩
    · rw [copyAll, hcopy, Option.bind_some, ← hrest, List.length_append, hfour]
    · rw [hb2, List.drop_drop, List.flatMap_cons, List.length_cons, hfour, ← List.append_assoc,
        show 4 + 4 * vs.length = 4 * (vs.length + 1) by omega]

theorem copyRegisters_eq (cpuid : UInt32 → Registers) (b : Buffer) :
    ∃ b', copyRegisters cpuid b = some b' ∧ b'.bytes = brandBytes cpuid := by
  obtain ⟨b1, hclear, hb1⟩ := @Buffer.memcpy_eq b [] (List.replicate 13 0) b.bytes rfl
    (by rw [b.length_bytes]; decide)
  obtain ⟨b2, hcopy, hb2⟩ := @copyAll_eq (brandRegisters cpuid) b1 [] b1.bytes rfl
    (by rw [b1.length_bytes]; exact Nat.le_refl 48)
  refine ⟨b2, ?_, ?_⟩
  · have heq : copyRegisters cpuid b = (b.memset 0 13).bind (copyAll (brandRegisters cpuid) 0) := by
      simp only [copyRegisters, copyAll, brandRegisters, List.flatMap_cons, List.flatMap_nil,
        List.cons_append, List.nil_append, Option.bind_eq_bind, Option.bind_fun_some]
    rw [List.length_nil] at hclear hcopy
    rw [heq, Buffer.memset, hclear, Option.bind_some, hcopy]
  · rw [hb2, List.drop_of_length_le (by rw [b1.length_bytes]; exact Nat.le_refl 48),
      List.append_nil]
    rfl

/-! ## The text in the buffer -/

section Text

variable {t rest : List UInt8}

theorem strlen_eq_none {l : List UInt8} (h : 0 ∉ l) : strlen l = none := by
  induction l with
  | nil => rfl
  | cons c l ih =>
    rw [List.mem_cons, not_or] at h
    rw [strlen, if_neg (Ne.symm h.1), ih h.2, Option.map_none]

theorem strlen_append (h : 0 ∉ t) : strlen (t ++ 0 :: rest) = some t.length := by
  induction t with
  | nil => rfl
  | cons c t ih =>
    rw [List.mem_cons, not_or] at h
    rw [List.cons_append, strlen, if_neg (Ne.symm h.1), ih h.2, Option.map_some, List.length_cons]

/-- The spaces in front of a text with a NUL end in the text or at the NUL. -/
theorem skipSpaces_append (i : Nat) :
    skipSpaces (t ++ 0 :: rest) i = some (i + (t.takeWhile (· = 0x20)).length) := by
  induction t generalizing i with
  | nil => rfl
  | cons c t ih =>
    rw [List.cons_append, skipSpaces]
    by_cases hc : c = 0x20
    · rw [if_pos hc, ih, List.takeWhile_cons_of_pos (by simpa using hc), List.length_cons]
      congr 1
      omega
    · rw [if_neg hc, List.takeWhile_cons_of_neg (by simpa using hc)]
      rfl

theorem takeWhile_text (h : 0 ∉ t) : (t ++ 0 :: rest).takeWhile (· ≠ 0) = t := by
  have hpos : ∀ c ∈ t, decide (c ≠ 0) = true :=
    fun c hc => decide_eq_true fun hzero : c = 0 => h (hzero ▸ hc)
  rw [List.takeWhile_append_of_pos hpos, List.takeWhile_cons_of_neg (by simp), List.append_nil]

end Text

/-! ## The move of the text -/

section Move

variable {bytes : List UInt8} {j : Nat}

/-- The buffer when `j` characters of the text have been moved. -/
def moved (text bytes : List UInt8) (j : Nat) : List UInt8 := text.take j ++ bytes.drop j

theorem moved_set {text : List UInt8} {c : UInt8} (hc : text[j]? = some c)
    (hle : text.length ≤ bytes.length) : (moved text bytes j).set j c = moved text bytes (j + 1) := by
  obtain ⟨hj, hget⟩ := List.getElem?_eq_some_iff.mp hc
  have hlen : (text.take j).length = j := by
    rw [List.length_take]
    omega
  have htake : text.take (j + 1) = text.take j ++ [c] := by rw [List.take_add_one, hc]; rfl
  rw [moved, moved, htake, List.set_append_right _ _ (by omega), hlen, Nat.sub_self,
    List.drop_eq_getElem_cons (by omega), List.set_cons_zero, List.append_assoc]
  rfl

variable {text rest : List UInt8} {k : Nat} {b : Buffer}

/-- Until the text has been moved, the bytes up to the old NUL are a text. -/
theorem strlen_moved (ht : bytes = (List.replicate k 0x20 ++ text) ++ 0 :: rest) (hnul : 0 ∉ text)
    (hj : j ≤ text.length) : strlen (moved text bytes j) = some (k + text.length) := by
  have hlen : (List.replicate k (0x20 : UInt8) ++ text).length = k + text.length := by
    rw [List.length_append, List.length_replicate]
  have hfront : 0 ∉ text.take j ++ (List.replicate k 0x20 ++ text).drop j := by
    intro h
    rcases List.mem_append.mp h with htake | hdrop
    · exact hnul (List.mem_of_mem_take htake)
    · rcases List.mem_append.mp (List.mem_of_mem_drop hdrop) with hspace | htext
      · exact absurd (List.eq_of_mem_replicate hspace) (by decide)
      · exact hnul htext
  rw [moved, ht, List.drop_append_of_le_length (by omega), ← List.append_assoc,
    strlen_append hfront, List.length_append, List.length_take, List.length_drop, hlen]
  congr 1
  omega

/-- The next character of the text has not been written over. -/
theorem read_moved (ht : bytes = (List.replicate k 0x20 ++ text) ++ 0 :: rest)
    (hj : j ≤ text.length) (hb : b.bytes = moved text bytes j) :
    b.read (k + j) = (text ++ 0 :: rest)[j]? := by
  have hlen : (text.take j).length = j := by
    rw [List.length_take]
    omega
  rw [Buffer.read, hb, moved, List.getElem?_append_right (by omega), hlen, List.getElem?_drop,
    show j + (k + j - j) = k + j by omega, ht, List.append_assoc,
    List.getElem?_append_right (by rw [List.length_replicate]; omega), List.length_replicate,
    Nat.add_sub_cancel_left]

/-- The loop moves a text behind `k` spaces to the start of the buffer, and its NUL. -/
theorem returns_move (hsize : bytes.length = brandNameSize)
    (ht : bytes = (List.replicate k 0x20 ++ text) ++ 0 :: rest) (hnul : 0 ∉ text)
    (hj : j ≤ text.length) (hb : b.bytes = moved text bytes j) :
    ∃ b', Returns (moveStep k) (j, b) (some b') ∧ ∃ rest', b'.bytes = text ++ 0 :: rest' := by
  have hlen : k + text.length + (rest.length + 1) = brandNameSize := by
    rw [← hsize, ht]
    simp only [List.length_append, List.length_replicate, List.length_cons]
  have hwrite : ∀ (b : Buffer) (i : Nat) (c : UInt8), i < brandNameSize →
      ∃ b', b.write i c = some b' ∧ b'.bytes = b.bytes.set i c :=
    fun b i c hi => ⟨_, if_pos hi, rfl⟩
  induction hd : text.length - j generalizing j b with
  | zero =>
    have hend : j = text.length := by omega
    have hstrlen := strlen_moved ht hnul hj
    rw [← hb] at hstrlen
    have hread := read_moved ht hj hb
    rw [hend, List.getElem?_append_right (Nat.le_refl _), Nat.sub_self,
      List.getElem?_cons_zero] at hread
    by_cases hk : k = 0
    · -- there was nothing to move
      subst hk
      refine ⟨b, Returns.done ?_, rest, ?_⟩
      · simp only [moveStep, hstrlen, hend, Nat.zero_add, Nat.lt_irrefl, if_false]
      · rw [hb, moved, hend, List.take_length, ht]
        simp
    · -- the NUL is moved as well
      obtain ⟨b', hb', hbytes'⟩ := hwrite b text.length 0 (by omega)
      have hfinal : b'.bytes = text ++ 0 :: bytes.drop (text.length + 1) := by
        rw [hbytes', hb, moved, hend, List.take_length, List.set_append_right _ _ (Nat.le_refl _),
          Nat.sub_self, List.drop_eq_getElem_cons (by omega), List.set_cons_zero]
      refine ⟨b', @Returns.next _ _ _ _ (text.length + 1, b') _ ?_ (Returns.done ?_), _, hfinal⟩
      · simp only [moveStep, hstrlen, hend, hread, Option.bind_some, hb']
        rw [if_pos (by omega)]
      · simp only [moveStep, hfinal, strlen_append hnul]
        rw [if_neg (by omega)]
  | succ d ih =>
    have hlt : j < text.length := by omega
    have hchar : text[j]? = some text[j] := List.getElem?_eq_getElem hlt
    have hread := read_moved ht hj hb
    rw [List.getElem?_append_left hlt, hchar] at hread
    obtain ⟨b1, hb1, hbytes1⟩ := hwrite b j text[j] (by omega)
    rw [hb, moved_set hchar (by omega)] at hbytes1
    obtain ⟨b', hret, hb'⟩ := ih hlt hbytes1 (by omega)
    refine ⟨b', hret.next ?_, hb'⟩
    have hstrlen := strlen_moved ht hnul hj
    rw [← hb] at hstrlen
    simp only [moveStep, hstrlen, hread, Option.bind_some, hb1]
    rw [if_pos (by omega)]

end Move

/-! ## Calls -/

section Call

variable {cpuid : UInt32 → Registers}

/-- With a NUL among its bytes the name is decoded. -/
theorem decodes_of_nul (b : Buffer) (h : 0 ∈ brandBytes cpuid) : Decodes cpuid ⟨b, false⟩ := by
  obtain ⟨b1, hcopy, hb1⟩ := copyRegisters_eq cpuid b
  obtain ⟨t, rest, hbytes, hnul⟩ := List.eq_append_cons_of_mem h
  have hspaces : t = List.replicate (t.takeWhile (· = 0x20)).length 0x20
      ++ t.dropWhile (· = 0x20) := by
    have hall : t.takeWhile (· = 0x20) = List.replicate (t.takeWhile (· = 0x20)).length 0x20 :=
      List.eq_replicate_of_mem fun c hc => by simpa using List.mem_takeWhile_imp hc
    rw [← hall, List.takeWhile_append_dropWhile]
  have htext : 0 ∉ t.dropWhile (· = 0x20) := fun hc => hnul ((List.dropWhile_sublist _).subset hc)
  obtain ⟨b', hret, hb'⟩ := @returns_move b1.bytes 0 _ rest _ b1 b1.length_bytes
    (by rw [← hspaces, hb1, hbytes]) htext (Nat.zero_le _) (by simp [moved])
  refine ⟨⟨b', true⟩, ?_, ?_, fun later r => Iff.rfl⟩
  · simp only [GetBrandName, if_true, hcopy]
    rw [hb1, hbytes, skipSpaces_append, Nat.zero_add]
    exact ⟨some b', hret, rfl⟩
  · rw [brandText, hbytes, takeWhile_text hnul]
    exact hb'

/-- Without one the length of the text is looked for behind the buffer. -/
theorem not_decodes_of_not_mem (b : Buffer) (h : 0 ∉ brandBytes cpuid) :
    ¬ Decodes cpuid ⟨b, false⟩ := by
  obtain ⟨b1, hcopy, hb1⟩ := copyRegisters_eq cpuid b
  rintro ⟨s', hcall, -⟩
  simp only [GetBrandName, if_true, hcopy] at hcall
  cases hskip : skipSpaces b1.bytes 0 with
  | none => simp [hskip] at hcall
  | some i =>
    simp only [hskip] at hcall
    obtain ⟨result, hret, hr⟩ := hcall
    have hstep : moveStep i (0, b1) = .inr none := by
      rw [← hb1] at h
      simp only [moveStep, strlen_eq_none h]
    rw [(returns_iff_of_done hstep).mp hret] at hr
    cases hr

/-- The name is decoded exactly when the processor sends a NUL. -/
theorem decodes_iff (cpuid : UInt32 → Registers) (b : Buffer) :
    Decodes cpuid ⟨b, false⟩ ↔ 0 ∈ brandBytes cpuid := by
  constructor
  · intro h
    by_contra hnul
    exact not_decodes_of_not_mem b hnul h
  · exact decodes_of_nul b

/-- A processor that fills all of the 48 bytes with the letter `A`. -/
theorem not_decodes_full : ¬ Decodes (fun _ => ⟨0x41414141, 0x41414141, 0x41414141, 0x41414141⟩)
    ⟨⟨List.replicate brandNameSize 0, List.length_replicate⟩, false⟩ :=
  not_decodes_of_not_mem _ (by decide)

end Call

end Xeos.Hal.Cpu
