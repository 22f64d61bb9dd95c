import Xeos.Video.DigitBuffer
import Xeos.Video.PrintfScan

/-!
# The accesses to the buffer of the digits

The addresses that the integer conversions access through `s1` and `s2`, and when all of them
are in the 30 characters of `buf`.  The digits of any number fit, and so does a field of less
than 30 characters with the NUL behind it.  The width of the field is not checked:
`numbersInside_iff` says that a call stays inside the buffer exactly when no integer
conversion that it comes to has a wider field.
-/

namespace Xeos.Video.Printf

open Lib

/-! ## The accesses -/

/-- The addresses of `n` characters. -/
def charsFrom (a n : Nat) : List Nat := List.range' a n

/-- What `memmove` reads and writes. -/
def memmoveUses (dst src n : Nat) : List Nat := charsFrom src n ++ charsFrom dst n

/-- The accesses of `DigitBuffer.shift`. -/
def DigitBuffer.shiftUses (s1 : Nat) (b : DigitBuffer) : List Nat :=
  (if 0 < b.digits then memmoveUses (s1 + 1) s1 b.digits else []) ++ [s1]

/-- The accesses of `digitLoop`. -/
def digitLoopUses (radix : Radix) (intType s1 n : Nat) (b : DigitBuffer) : List Nat :=
  if n / radix.toNat = 0 then b.shiftUses s1
  else b.shiftUses s1 ++ digitLoopUses radix intType s1 (n / radix.toNat)
    (b.shift s1 (digitChar intType (n % radix.toNat)))
termination_by n
decreasing_by
  cases radix <;> simp only [Radix.toNat] at * <;> omega

/-- The accesses of `padBuffer`. -/
def padBufferUses (d : Directive) (s1 : Nat) (b : DigitBuffer) : List Nat :=
  if (b.digits : Int) < d.minimumWidth.toInt then
    let minimumWidth := (d.minimumWidth.toInt - b.digits).toNat
    if d.align then charsFrom b.s2 minimumWidth
    else memmoveUses (s1 + minimumWidth) s1 b.digits ++ charsFrom s1 minimumWidth
  else []

/-- The accesses of `numberBuffer`. -/
def numberBufferUses (d : Directive) (radix : Radix) (intType n buf : Nat) (m : Memory) :
    List Nat :=
  let b : DigitBuffer := ⟨m.fill buf bufferSize 0, buf, 0⟩
  charsFrom buf bufferSize ++ digitLoopUses radix intType buf n b ++
    padBufferUses d buf (digitLoop radix intType buf n b)

/-- The address is one of the array. -/
def InBuffer (buf a : Nat) : Prop := buf ≤ a ∧ a < buf + bufferSize

/-- The accesses to the array at `buf`, of the loops that fill it and of the one that prints
it, stay inside. -/
def NumberInside (cfg : Config) (d : Directive) (radix : Radix) (intType n buf : Nat) (m : Memory)
    (s : Engine) : Prop :=
  (∀ a ∈ numberBufferUses d radix intType n buf m, InBuffer buf a) ∧
    Always (putNumberStep cfg (numberBuffer d radix intType n buf m))
      (fun p => InBuffer buf p.1) (buf, s)

section Buffer

variable {cfg : Config} {d : Directive} {radix : Radix} {intType n buf : Nat} {m : Memory}
variable {text : List UInt8} {s : Engine} {a : Nat}

theorem mem_charsFrom {k : Nat} : a ∈ charsFrom buf k ↔ buf ≤ a ∧ a < buf + k := List.mem_range'_1

theorem mem_shiftUses (h : a ∈ (DigitBuffer.of m buf text).shiftUses buf) :
    buf ≤ a ∧ a ≤ buf + text.length := by
  unfold DigitBuffer.shiftUses DigitBuffer.of memmoveUses at h
  simp only [List.mem_append, List.mem_singleton] at h
  split_ifs at h with hpos
  · simp only [List.mem_append, mem_charsFrom] at h
    omega
  · have ha : a = buf := h.resolve_left List.not_mem_nil
    omega

theorem length_lt_digits : text.length < (digits radix intType n text).length := by
  have hradix := radix.eight_le
  induction n using Nat.strong_induction_on generalizing text with
  | _ n ih =>
    unfold digits
    by_cases hlast : n / radix.toNat = 0
    · rw [if_pos hlast, List.length_cons]
      omega
    · have hn : 0 < n := Nat.pos_of_ne_zero fun h => hlast (by rw [h, Nat.zero_div])
      rw [if_neg hlast]
      have hlt : (digitChar intType (n % radix.toNat) :: text).length < _ :=
        ih _ (Nat.div_lt_self hn (show 1 < radix.toNat by omega))
      rw [List.length_cons] at hlt
      omega

/-- The loop over the digits stays in the text that it makes. -/
theorem mem_digitLoopUses (h : a ∈ digitLoopUses radix intType buf n (.of m buf text)) :
    buf ≤ a ∧ a < buf + (digits radix intType n text).length := by
  have hradix := radix.eight_le
  induction n using Nat.strong_induction_on generalizing text with
  | _ n ih =>
    have hlt : text.length < (digits radix intType n text).length := length_lt_digits
    unfold digitLoopUses at h
    by_cases hlast : n / radix.toNat = 0
    · rw [if_pos hlast] at h
      have ha := mem_shiftUses h
      omega
    · have hn : 0 < n := Nat.pos_of_ne_zero fun h => hlast (by rw [h, Nat.zero_div])
      rw [if_neg hlast, List.mem_append] at h
      rcases h with hshift | hrest
      · have ha := mem_shiftUses hshift
        omega
      · rw [DigitBuffer.shift_of] at hrest
        have ha := ih _ (Nat.div_lt_self hn (show 1 < radix.toNat by omega)) hrest
        unfold digits
        rw [if_neg hlast]
        exact ha

/-- The padding stays in the text or in the field. -/
theorem mem_padBufferUses (h : a ∈ padBufferUses d buf (.of m buf text)) :
    buf ≤ a ∧ (a : Int) < buf + d.minimumWidth.toInt := by
  unfold padBufferUses DigitBuffer.of memmoveUses at h
  dsimp only at h
  split_ifs at h with hlt halign
  · rw [mem_charsFrom] at h
    omega
  · simp only [List.mem_append, mem_charsFrom] at h
    omega
  · exact absurd h List.not_mem_nil

/-- The last loop reads up to the first NUL. -/
theorem visits_putNumberStep {p : Nat × Engine} (h : Visits (putNumberStep cfg m) (buf, s) p) :
    ∃ k, p.1 = buf + k ∧ ∀ i, i < k → m (buf + i) ≠ 0 := by
  induction h with
  | refl => exact ⟨0, rfl, fun i hi => absurd hi (Nat.not_lt_zero i)⟩
  | @tail p q _ hstep ih =>
    obtain ⟨k, hk, hne⟩ := ih
    have hp : m p.1 ≠ 0 ∧ p.1 + 1 = q.1 := by
      change (if m p.1 ≠ 0 then Sum.inl (p.1 + 1, p.2.put cfg (m p.1)) else Sum.inr p.2)
        = Sum.inl q at hstep
      split_ifs at hstep with hread
      exact ⟨hread, congrArg Prod.fst (Sum.inl.inj hstep)⟩
    refine ⟨k + 1, by omega, ?_⟩
    intro i hi
    rcases Nat.lt_succ_iff_lt_or_eq.mp hi with hlt | heq
    · exact hne i hlt
    · rw [heq, ← hk]
      exact hp.1

theorem exists_visits_putNumberStep (k : Nat) (h : ∀ i, i < k → m (buf + i) ≠ 0) :
    ∃ s', Visits (putNumberStep cfg m) (buf, s) (buf + k, s') := by
  induction k with
  | zero => exact ⟨s, Relation.ReflTransGen.refl⟩
  | succ k ih =>
    obtain ⟨s', hvisits⟩ := ih fun i hi => h i (by omega)
    exact ⟨s'.put cfg (m (buf + k)), hvisits.tail (if_pos (h k (Nat.lt_succ_self k)))⟩

/-- The width of the field decides. -/
theorem numberInside_iff (hpad : d.pad ≠ 0) (n : UInt64) :
    NumberInside cfg d radix intType n.toNat buf m s ↔ d.minimumWidth.toInt < bufferSize := by
  have hwidth := bufferSize_le_iff d radix intType n
  have hlength : (digits radix intType n.toNat []).length < bufferSize := by
    have hn : n.toNat < radix.toNat ^ 22 := by
      have h8 : 8 ^ 22 ≤ radix.toNat ^ 22 := Nat.pow_le_pow_left radix.eight_le 22
      have hlt := n.toNat_lt
      omega
    have hle := digits_length_le radix intType [] (show 0 < 22 by omega) hn
    unfold bufferSize
    rw [List.length_nil] at hle
    omega
  have hzero : 0 ∉ padDigits d (digits radix intType n.toNat []) :=
    zero_notMem_padDigits hpad (zero_notMem_digits List.not_mem_nil)
  unfold NumberInside numberBufferUses
  rw [numberBuffer_eq]
  generalize htext : padDigits d (digits radix intType n.toNat []) = text at hwidth hzero
  have hchar : ∀ i, i < text.length →
      ((m.fill buf bufferSize 0).write buf text) (buf + i) ≠ 0 := by
    intro i hi
    rw [Memory.write_of_mem hi, List.getD_eq_getElem _ _ hi]
    exact fun h => hzero (h ▸ List.getElem_mem hi)
  constructor
  · -- the loop that prints a longer text comes to the place behind the array
    intro h
    by_contra hwide
    have hlong : bufferSize ≤ text.length := hwidth.mpr (by omega)
    have hvisits : ∃ s', Visits (putNumberStep cfg _) (buf, s) (buf + bufferSize, s') :=
      exists_visits_putNumberStep bufferSize fun i hi => hchar i (by omega)
    obtain ⟨s', hvisits⟩ := hvisits
    have hinside : InBuffer buf (buf + bufferSize) := h.2 _ hvisits
    exact absurd hinside.2 (Nat.lt_irrefl _)
  · intro hnarrow
    have hshort : text.length < bufferSize := by
      by_contra hle
      have hwide := hwidth.mp (by omega)
      omega
    refine ⟨?_, ?_⟩
    · intro a ha
      have hof : (⟨m.fill buf bufferSize 0, buf, 0⟩ : DigitBuffer)
          = .of (m.fill buf bufferSize 0) buf [] := by
        unfold DigitBuffer.of
        rw [Memory.write_nil]
        rfl
      dsimp only at ha
      rw [hof, digitLoop_of] at ha
      simp only [List.mem_append] at ha
      unfold InBuffer
      rcases ha with (hfill | hdigits) | hpads
      · exact mem_charsFrom.mp hfill
      · have ha := mem_digitLoopUses hdigits
        omega
      · have ha := mem_padBufferUses hpads
        omega
    · intro p hvisits
      obtain ⟨k, hk, hne⟩ := visits_putNumberStep hvisits
      have hle : k ≤ text.length := by
        by_contra hgt
        refine hne text.length (by omega) ?_
        rw [Memory.write_of_not_mem (by omega), Memory.fill_of_mem _ _ (by omega)]
      show InBuffer buf p.1
      unfold InBuffer
      omega

end Buffer

/-! ## The conversions of a call -/

/-- The accesses to the array at `buf` of the integer conversion `c`. -/
def ConversionInside (cfg : Config) (c : UInt8) (d : Directive) (s : Engine) (buf : Nat)
    (m : Memory) : Prop :=
  let v := fetch cfg d (normalizeType (typeBits c)) s.ap
  let signed := putSign cfg d v { s with ap := s.ap + 1 }
  NumberInside cfg d (radixOf v.intType) v.intType signed.1.toNat buf m
    (putSharp cfg v signed.1 signed.2)

/-- At an integer conversion, the property `P` holds of its directive. -/
def AtInteger (P : UInt8 → Directive → Engine → Prop) : Phase → Prop
  | .inner d s => ∀ c, s.format.read = some c → classify c = .integer → P c d s
  | .outer _ | .string _ _ _ _ => True

/-- Every integer conversion of the call stays inside its array, wherever that is. -/
def NumbersInside (cfg : Config) (format : CString) : Prop :=
  ∀ buf m, Always (step cfg) (AtInteger fun c d s => ConversionInside cfg c d s buf m) (start format)

/-- The engine does not come out of the conversion: without a handler the loop over a string
does not advance. -/
def Conversion.hangs (cfg : Config) (conv : Conversion) : Bool :=
  classify conv.letter = .string ∧ cfg.handler = false ∧
    (cfg.args.string conv.ap).map Subtype.val ≠ some []

/-- The conversions of a format that the engine comes to. -/
def reachedConversions (cfg : Config) (ap : Nat) (format : List UInt8) : List Conversion :=
  match format with
  | [] => []
  | c :: rest =>
    if c ≠ 0x25 then reachedConversions cfg ap rest
    else if rest.head? = some 0x25 then reachedConversions cfg ap rest.tail
    else
      match _hscan : scan cfg {} ap rest with
      | none => []
      | some (conv, rest') =>
        conv :: if conv.hangs cfg then [] else reachedConversions cfg conv.nextAp rest'
termination_by format.length
decreasing_by
  · rw [List.length_cons]
    omega
  · rw [List.length_cons, List.length_tail]
    omega
  · have hlen := (scan_suffix _hscan).2
    rw [List.length_cons]
    omega

/-- The field leaves room for the NUL. -/
def Narrow (d : Directive) : Prop := d.minimumWidth.toInt < bufferSize

/-- An integer conversion with a field that leaves room for the NUL. -/
def Conversion.Fitting (conv : Conversion) : Prop :=
  classify conv.letter = .integer → Narrow conv.directive

/-- The phase is not at a directive with an empty padding character. -/
def Padded : Phase → Prop
  | .inner d _ => d.pad ≠ 0
  | .outer _ | .string _ _ _ _ => True

section Engine

variable {cfg : Config}

theorem pad_setFlag (t : Token) {d : Directive} (hd : d.pad ≠ 0) : (d.setFlag cfg t).pad ≠ 0 := by
  have hzero : (0x30 : UInt8) ≠ 0 := by decide
  unfold Directive.setFlag
  split <;> first | exact hd | exact hzero

theorem padded_stepPrecision {d : Directive} (hd : d.pad ≠ 0) (s : Engine) :
    Padded (stepPrecision cfg d s) := by
  unfold stepPrecision
  dsimp only
  split
  · split_ifs <;> exact hd
  · exact hd

theorem padded_startString (d : Directive) (s : Engine) : Padded (startString cfg d s) := by
  obtain ⟨len, s', heq, -, -⟩ := startString_eq cfg d s
  rw [heq]
  trivial

theorem padded_step {φ φ' : Phase} (h : Padded φ) (hstep : step cfg φ = .inl φ') : Padded φ' := by
  cases φ with
  | outer s =>
    have hspace : (({} : Directive).pad) ≠ 0 := by decide
    unfold step at hstep
    dsimp only at hstep
    split at hstep
    · cases hstep
    · split_ifs at hstep
      all_goals
        cases hstep
        trivial
  | inner d s =>
    have hd : d.pad ≠ 0 := h
    unfold step at hstep
    dsimp only at hstep
    split at hstep
    · cases hstep
    · unfold stepInner at hstep
      split at hstep
      case h_4 => exact Sum.inl.inj hstep ▸ padded_stepPrecision hd s
      case h_7 => exact Sum.inl.inj hstep ▸ padded_startString d s
      case h_11 => exact Sum.inl.inj hstep ▸ pad_setFlag _ hd
      all_goals first
        | exact Sum.inl.inj hstep ▸ hd
        | exact Sum.inl.inj hstep ▸ trivial
        | (split at hstep <;> cases hstep; first | exact hd | trivial)
  | string d len bytes s =>
    unfold step at hstep
    dsimp only at hstep
    split at hstep
    · exact Sum.inl.inj hstep ▸ trivial
    · split_ifs at hstep <;> exact Sum.inl.inj hstep ▸ trivial

/-- The accesses stay inside when the fields are narrow. -/
theorem numbersInside_iff_narrow (format : CString) :
    NumbersInside cfg format
      ↔ Always (step cfg) (AtInteger fun _ d _ => Narrow d) (start format) := by
  have hpadded : Always (step cfg) Padded (start format) :=
    always_of_invariant Padded (fun _ h => h) (fun _ _ h hstep => padded_step h hstep) trivial
  have hiff : ∀ buf m φ, Visits (step cfg) (start format) φ →
      ((AtInteger fun c d s => ConversionInside cfg c d s buf m) φ
        ↔ (AtInteger fun _ d _ => Narrow d) φ) := by
    intro buf m φ hvisits
    have hpad : Padded φ := hpadded φ hvisits
    cases φ with
    | inner d s =>
      refine forall_congr' fun c => forall_congr' fun _ => forall_congr' fun _ => ?_
      exact numberInside_iff hpad _
    | outer s => exact Iff.rfl
    | string d len bytes s => exact Iff.rfl
  constructor
  · intro h φ hvisits
    exact (hiff 0 (fun _ => 0) φ hvisits).mp (h 0 (fun _ => 0) φ hvisits)
  · intro h buf m φ hvisits
    exact (hiff buf m φ hvisits).mpr (h φ hvisits)

/-! ## Which conversions the engine comes to -/

section Narrow

/-- The fields of all conversions from here on are narrow. -/
def AllNarrow (cfg : Config) (φ : Phase) : Prop :=
  Always (step cfg) (AtInteger fun _ d _ => Narrow d) φ

/-- The phase is not at an integer conversion. -/
def Calm : Phase → Prop
  | .inner _ s => ∀ c, s.format.read = some c → classify c ≠ .integer
  | .outer _ | .string _ _ _ _ => True

theorem calm_outer (s : Engine) : Calm (.outer s) := trivial

theorem calm_string (d : Directive) (len : Nat) (bytes : List UInt8) (s : Engine) :
    Calm (.string d len bytes s) := trivial

theorem Calm.atInteger {φ : Phase} (h : Calm φ) (P : UInt8 → Directive → Engine → Prop) :
    AtInteger P φ := by
  cases φ with
  | inner d s => exact fun c hread hc => absurd hc (h c hread)
  | outer s => trivial
  | string d len bytes s => trivial

/-- A step that is not an integer conversion. -/
theorem allNarrow_iff_of_step {φ φ' : Phase} (hφ : Calm φ) (hstep : step cfg φ = .inl φ') :
    AllNarrow cfg φ ↔ AllNarrow cfg φ' :=
  (always_iff_of_step hstep).trans (and_iff_right (hφ.atInteger _))

theorem allNarrow_of_done {φ : Phase} {r : Result} (hφ : Calm φ) (hstep : step cfg φ = .inr r) :
    AllNarrow cfg φ :=
  (always_iff_of_done hstep).mpr (hφ.atInteger _)

/-- The loop over a string: with a handler it comes to its end. -/
theorem allNarrow_string_iff (hhandler : cfg.handler = true) (d : Directive) (len : Nat)
    (bytes : List UInt8) (s : Engine) :
    AllNarrow cfg (.string d len bytes s)
      ↔ AllNarrow cfg (.outer (endString cfg d len (s.puts cfg bytes))) := by
  induction bytes generalizing s with
  | nil => exact allNarrow_iff_of_step (calm_string ..) rfl
  | cons c rest ih =>
    have hstep : step cfg (.string d len (c :: rest) s) = .inl (.string d len rest (s.put cfg c)) := by
      simp only [step, hhandler, if_true]
    rw [allNarrow_iff_of_step (calm_string ..) hstep, ih]
    rfl

/-- Without one it stays at the first character. -/
theorem allNarrow_string (hhandler : cfg.handler = false) (d : Directive) (len : Nat)
    (c : UInt8) (rest : List UInt8) (s : Engine) :
    AllNarrow cfg (.string d len (c :: rest) s) := by
  refine always_of_invariant (fun φ => ∃ t, φ = .string d len (c :: rest) t) ?_ ?_ ⟨s, rfl⟩
  · rintro φ ⟨t, rfl⟩
    trivial
  · rintro φ φ' ⟨t, rfl⟩ hstep
    simp only [step, hhandler, Bool.false_eq_true, if_false] at hstep
    exact ⟨t.put cfg c, (Sum.inl.inj hstep).symm⟩

theorem allNarrow_startString_iff (d : Directive) (s : Engine) (c : UInt8) (G : Prop)
    (hc : classify c = .string)
    (hrest : ∀ s' : Engine, s'.format = s.format.next → s'.ap = s.ap + 1 →
      (AllNarrow cfg (.outer s') ↔ G)) :
    AllNarrow cfg (startString cfg d s) ↔ ((Conversion.mk c d s.ap).hangs cfg = false → G) := by
  obtain ⟨len, s1, heq, hformat, hap⟩ := startString_eq cfg d s
  have hend : ∀ t : Engine, t.format = s1.format → t.ap = s1.ap →
      (AllNarrow cfg (.outer (endString cfg d len t)) ↔ G) := by
    intro t hf ha
    apply hrest
    · rw [(endString_format cfg d len t).1, hf, hformat]
    · rw [(endString_format cfg d len t).2, ha, hap]
  rw [heq]
  unfold Conversion.hangs
  cases hh : cfg.handler with
  | true =>
    rw [allNarrow_string_iff hh, hend _ (by simp) (by simp)]
    simp
  | false =>
    cases harg : (cfg.args.string s.ap).map Subtype.val with
    | none =>
      have hnot := allNarrow_string hh d len 0x28 [0x6E, 0x75, 0x6C, 0x6C, 0x29] s1
      simp only [Option.getD_none, nullText, hnot, hc, true_iff]
      simp
    | some bytes =>
      rw [Option.getD_some]
      cases bytes with
      | nil =>
        have hstep : step cfg (.string d len [] s1) = .inl (.outer (endString cfg d len s1)) := rfl
        rw [allNarrow_iff_of_step (calm_string ..) hstep, hend s1 rfl rfl]
        simp
      | cons c' rest =>
        have hnot := allNarrow_string hh d len c' rest s1
        simp only [hnot, hc, true_iff]
        simp

/-- The conversion of a directive. -/
theorem allNarrow_conversion_iff {c : UInt8} {rest : List UInt8} (d : Directive) (s : Engine)
    (hs : s.format = .inside (c :: rest)) (G : Prop) (hc : classify c ∈ conversionTokens)
    (hrest : ∀ s' : Engine, s'.format = .inside rest →
      s'.ap = (Conversion.mk c d s.ap).nextAp → (AllNarrow cfg (.outer s') ↔ G)) :
    AllNarrow cfg (.inner d s) ↔ (Conversion.mk c d s.ap).Fitting ∧
      ((Conversion.mk c d s.ap).hangs cfg = false → G) := by
  have hnext : s.format.next = .inside rest := by rw [hs]; rfl
  have hread : s.format.read = some c := by rw [hs]; rfl
  have hstep : step cfg (.inner d s) = stepInner cfg c d s := step_inner hs
  have hother : classify c ≠ .integer → Calm (.inner d s) := by
    intro hne c' hread'
    rw [hread] at hread'
    rwa [← Option.some.inj hread']
  have hfitting : classify c ≠ .integer → (Conversion.mk c d s.ap).Fitting :=
    fun hne h => absurd h hne
  have hgoes : classify c ≠ .string → ((Conversion.mk c d s.ap).hangs cfg = false → G) = G := by
    intro hne
    simp [Conversion.hangs, hne]
  unfold Conversion.nextAp at hrest
  cases ht : classify c with
  | char =>
    simp only [stepInner, ht] at hstep hrest
    have hfmt := convertChar_format cfg d s
    rw [allNarrow_iff_of_step (hother (by simp [ht])) hstep, hrest _ (hfmt.1.trans hnext) hfmt.2,
      hgoes (by simp [ht])]
    exact (and_iff_right (hfitting (by simp [ht]))).symm
  | string =>
    simp only [stepInner, ht] at hstep hrest
    rw [allNarrow_iff_of_step (hother (by simp [ht])) hstep,
      allNarrow_startString_iff d s c G ht fun s' hf ha => hrest s' (hf.trans hnext) ha]
    exact (and_iff_right (hfitting (by simp [ht]))).symm
  | integer =>
    simp only [stepInner, ht] at hstep hrest
    rw [hgoes (by simp [ht])]
    have hat : (AtInteger fun _ d _ => Narrow d) (.inner d s) ↔ (Conversion.mk c d s.ap).Fitting := by
      constructor
      · exact fun h hinteger => h c hread hinteger
      · exact fun h c' _ _ => h ht
    cases hconv : convertInteger cfg c d s with
    | none =>
      rw [hconv] at hstep
      have hwide := (convertInteger_eq_none_iff cfg c d s).mp hconv
      have hnot : ¬ (Conversion.mk c d s.ap).Fitting := by
        intro h
        have hnarrow : d.minimumWidth.toInt < bufferSize := h ht
        omega
      exact (always_iff_of_done hstep).trans (hat.trans (iff_of_false hnot fun h => hnot h.1))
    | some s' =>
      rw [hconv] at hstep
      have hfmt := convertInteger_format hconv
      exact (always_iff_of_step hstep).trans
        (and_congr hat (hrest _ (hfmt.1.trans hnext) hfmt.2))
  | real =>
    simp only [stepInner, ht] at hstep hrest
    rw [allNarrow_iff_of_step (hother (by simp [ht])) hstep, hrest _ hnext rfl,
      hgoes (by simp [ht])]
    exact (and_iff_right (hfitting (by simp [ht]))).symm
  | other =>
    simp only [stepInner, ht] at hstep hrest
    rw [allNarrow_iff_of_step (hother (by simp [ht])) hstep,
      hrest { s with format := s.format.next } hnext rfl, hgoes (by simp [ht])]
    exact (and_iff_right (hfitting (by simp [ht]))).symm
  | _ => simp [ht, conversionTokens] at hc

/-- The loop over a directive. -/
theorem allNarrow_inner_iff {bound : Nat}
    (houter : ∀ (s : Engine) (rest : List UInt8), rest.length < bound → 0 ∉ rest →
      s.format = .inside rest →
        (AllNarrow cfg (.outer s) ↔ ∀ conv ∈ reachedConversions cfg s.ap rest, conv.Fitting))
    (d : Directive) (format : List UInt8) (s : Engine) (hlen : format.length ≤ bound)
    (hnul : 0 ∉ format) (hs : s.format = .inside format) :
    AllNarrow cfg (.inner d s) ↔ ∀ conv rest, scan cfg d s.ap format = some (conv, rest) →
      conv.Fitting ∧ (conv.hangs cfg = false →
        ∀ conv' ∈ reachedConversions cfg conv.nextAp rest, conv'.Fitting) := by
  have hscanned : Scanned cfg (AllNarrow cfg) (.inner d s) (scan cfg d s.ap format) := by
    refine scan_spec ?_ d s.ap format s hs rfl
    intro d s φ' hne hstep
    exact allNarrow_iff_of_step hne hstep
  cases hscan : scan cfg d s.ap format with
  | none =>
    refine iff_of_true ?_ nofun
    rw [hscan] at hscanned
    cases hscanned with
    | cutOff hformat h =>
      rename_i s'
      have hstep : step cfg (.outer s') = .inr .overread := by
        simp only [step, hformat, Cursor.read]
      exact h.mpr (allNarrow_of_done trivial hstep)
    | longDouble hread hc h =>
      rename_i d' s' c
      have hstep : step cfg (.inner d' s') = .inl (.inner d' s') := by
        simp only [step, hread, stepInner, hc]
      refine h.mpr (always_of_invariant (fun φ => φ = .inner d' s') ?_ ?_ rfl)
      · rintro φ rfl c' hread' hinteger
        rw [hread] at hread'
        rw [← Option.some.inj hread', hc] at hinteger
        cases hinteger
      · rintro φ φ' rfl hφ'
        rw [hstep] at hφ'
        exact (Sum.inl.inj hφ').symm
  | some result =>
    obtain ⟨conv, rest⟩ := result
    rw [hscan] at hscanned
    cases hscanned with
    | conversion hletter hformat hap' h =>
      rename_i s'
      have hsuffix := scan_suffix hscan
      have hconv := allNarrow_conversion_iff conv.directive s' hformat
        (∀ conv' ∈ reachedConversions cfg conv.nextAp rest, conv'.Fitting) hletter (by
          intro t ht hat
          rw [hap'] at hat
          rw [houter t rest (by omega) (fun hm => hnul (hsuffix.1.subset hm)) ht, hat])
      rw [h, hconv, hap']
      constructor
      · intro hfits conv' rest' heq
        obtain ⟨rfl, rfl⟩ := Prod.mk.inj (Option.some.inj heq)
        exact hfits
      · intro hall
        exact hall conv rest rfl

/-- The outer loop, by induction on what is left of the format. -/
theorem allNarrow_outer_iff {bound : Nat} (s : Engine) (rest : List UInt8)
    (hlen : rest.length < bound) (hnul : 0 ∉ rest) (hs : s.format = .inside rest) :
    AllNarrow cfg (.outer s) ↔ ∀ conv ∈ reachedConversions cfg s.ap rest, conv.Fitting := by
  induction bound generalizing s rest with
  | zero => omega
  | succ bound ih =>
    cases rest with
    | nil =>
      have hstep : step cfg (.outer s) = .inr (.returned s.count s.out) := by
        simp only [step, hs, Cursor.read, if_true]
      refine iff_of_true (allNarrow_of_done trivial hstep) ?_
      unfold reachedConversions
      exact List.forall_mem_nil _
    | cons c rest =>
      have hc0 : c ≠ 0 := fun h => hnul (h ▸ List.mem_cons_self)
      have hnul' : 0 ∉ rest := fun h => hnul (List.mem_cons_of_mem c h)
      rw [List.length_cons] at hlen
      unfold reachedConversions
      by_cases hc : c = 0x25
      · subst hc
        rw [if_neg (not_not.mpr rfl)]
        by_cases hhead : rest.head? = some 0x25
        · -- `%%`
          obtain ⟨rest', rfl⟩ := List.head?_eq_some_iff.mp hhead
          rw [allNarrow_iff_of_step (calm_outer s) (step_outer_percent hs), if_pos hhead, List.tail_cons]
          rw [List.length_cons] at hlen
          exact ih _ rest' (by omega) (fun h => hnul' (List.mem_cons_of_mem _ h)) rfl
        · rw [allNarrow_iff_of_step (calm_outer s) (step_outer_directive hs hhead), if_neg hhead]
          have hinner := allNarrow_inner_iff (fun s' rest' hlt => ih s' rest' hlt) {} rest
            { s with format := .inside rest } (by omega) hnul' rfl
          refine hinner.trans ?_
          split
          · next hscan =>
            refine iff_of_true (fun conv rest' h => ?_) (List.forall_mem_nil _)
            cases hscan.symm.trans h
          · next conv rest' hscan =>
            rw [List.forall_mem_cons]
            have hgoes : (∀ conv' ∈ if conv.hangs cfg then []
                else reachedConversions cfg conv.nextAp rest', conv'.Fitting) ↔
                (conv.hangs cfg = false →
                  ∀ conv' ∈ reachedConversions cfg conv.nextAp rest', conv'.Fitting) := by
              cases conv.hangs cfg <;> simp
            rw [hgoes]
            constructor
            · intro h
              exact h conv rest' hscan
            · intro h conv₁ rest₁ hscan₁
              obtain ⟨rfl, rfl⟩ := Prod.mk.inj (Option.some.inj (hscan.symm.trans hscan₁))
              exact h
      · rw [allNarrow_iff_of_step (calm_outer s) (step_outer_char hs hc0 hc), if_pos hc]
        exact ih _ rest (by omega) hnul' rfl

end Narrow

end Engine

end Xeos.Video.Printf
