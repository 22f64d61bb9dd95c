import Mathlib.Tactic.Linarith
import Xeos.System.Division

/-!
# The division routines are exact

`udivdi3_spec` and `umoddi3_spec`: for any dividend and any divisor but zero the routines return
the quotient and the remainder, with the registers of their caller, and for zero they fault.

The lemmas follow the text: the leading bits of the divisor, the estimate, and the difference that
decides whether it is one too large.
-/

namespace Xeos.System.Division

open Lib Lib.Asm Lib.Asm.Flags Lib.Division

/-- The stack behind the pushes of `saved`: the return address and the two numbers. -/
def frame (saved : List Nat) (ret a b : Nat) (rest : List Nat) : List Nat :=
  saved ++ ret :: a % 2 ^ 32 :: a / 2 ^ 32 :: b % 2 ^ 32 :: b / 2 ^ 32 :: rest

/-- The state at the call. -/
def Regs.call (s : Regs) (ret a b : Nat) (rest : List Nat) : Regs :=
  { s with stack := frame [] ret a b rest }

/-- The routine returns a number in `EDX:EAX`, and leaves the other registers and the stack to the
caller. -/
structure Returned (s : Regs) (ret a b : Nat) (rest : List Nat) (v : Nat) (r : Exit) : Prop where
  value : r.regs.edx * 2 ^ 32 + r.regs.eax = v
  low : r.regs.eax < 2 ^ 32
  ebx : r.regs.ebx = s.ebx
  edi : r.regs.edi = s.edi
  dest : r.dest = ret
  stack : ret :: r.regs.stack = frame [] ret a b rest

section Steps

variable {s : Regs} {ret a b x y : Nat} {rest : List Nat}

/-- The leading bit of the divisor. -/
def leading (b : Nat) : Nat := Nat.log2 (b / 2 ^ 32)

theorem leading_spec (hb : b < 2 ^ 64) (hhigh : b / 2 ^ 32 ≠ 0) :
    leading b < 32 ∧ 2 ^ (32 + leading b) ≤ b ∧ b / 2 ^ 32 < 2 ^ (leading b + 1) := by
  have hle : 2 ^ leading b ≤ b / 2 ^ 32 := Nat.log2_self_le hhigh
  refine ⟨?_, ?_, Nat.lt_log2_self⟩
  · exact (Nat.log2_lt hhigh).mpr (by omega)
  · rw [Nat.le_div_iff_mul_le (Nat.two_pow_pos 32), ← pow_add, Nat.add_comm] at hle
    exact hle

theorem normalize_spec (hb : b < 2 ^ 64) (hhigh : b / 2 ^ 32 ≠ 0) (hebx : s.ebx = b / 2 ^ 32)
    (hstack : s.stack = frame [x] ret a b rest) :
    (normalize s).ebx = b / 2 ^ (leading b + 1) ∧
      (normalize s).ecx = 2 ^ 32 - 1 - leading b ∧ (normalize s).edx = a / 2 ^ 32 ∧
      (normalize s).eax = a % 2 ^ 32 ∧ (normalize s).stack = s.stack ∧
      (normalize s).edi = s.edi := by
  obtain ⟨hi, -, hlt⟩ := leading_spec hb hhigh
  have harg : s.arg 16 = b % 2 ^ 32 ∧ s.arg 12 = a / 2 ^ 32 ∧ s.arg 8 = a % 2 ^ 32 := by
    simp only [Regs.arg, hstack, frame]
    exact ⟨rfl, rfl, rfl⟩
  obtain ⟨h16, h12, h8⟩ := harg
  obtain ⟨hbits, hfits⟩ := leading_bits hi hlt (Nat.mod_lt b (Nat.two_pow_pos 32))
  rw [Nat.div_add_mod'] at hbits
  refine ⟨?_, ?_, h12, h8, rfl, rfl⟩
  · change s.ebx * 2 ^ ((2 ^ 32 - 1 - Nat.log2 s.ebx) % 2 ^ 5) % 2 ^ 32
      ||| s.arg 16 / 2 ^ (Nat.log2 s.ebx % 2 ^ 5) / 2 = b / 2 ^ (leading b + 1)
    have hcount : (2 ^ 32 - 1 - leading b) % 2 ^ 5 = 32 - 1 - leading b := by omega
    have hcount' : leading b % 2 ^ 5 = leading b := Nat.mod_eq_of_lt hi
    rw [hebx, h16, ← leading, hcount, hcount', Nat.mod_eq_of_lt hfits, Nat.div_div_eq_div_mul,
      ← Nat.pow_succ, hbits]
  · change 2 ^ 32 - 1 - Nat.log2 s.ebx = 2 ^ 32 - 1 - leading b
    rw [hebx, leading]

/-- The `div` of a state with the dividend in two words. -/
theorem div_spec (hlt : s.edx < y) (heax : s.eax < 2 ^ 32) :
    s.div y = some { s with
      eax := (s.edx * 2 ^ 32 + s.eax) / y, edx := (s.edx * 2 ^ 32 + s.eax) % y } := by
  have hquot : (s.edx * 2 ^ 32 + s.eax) / y < 2 ^ 32 := div_lt_word hlt heax
  rw [Regs.div, if_neg (by omega)]

/-- The shifts of an estimate in units of `2 ^ (i + 1)`. -/
theorem scale_eq (bit : Nat) (s : Regs) {i : Nat} (hi : i < 32) (hecx : s.ecx = 2 ^ 32 - 1 - i) :
    scale bit s = { s with
      eax := (s.eax / 2 ||| bit) / 2 ^ i
      edi := (s.eax / 2 ||| bit) / 2 ^ i
      ecx := i
      stack := s.edi :: s.stack } := by
  have hcount : 2 ^ 32 - 1 - (2 ^ 32 - 1 - i) = i := by omega
  have hmod : i % 2 ^ 5 = i := Nat.mod_eq_of_lt hi
  rw [scale, hecx, hcount, hmod]

/-- A quotient of 33 bits, from its low 32. -/
theorem half_of_high {m : Nat} (hm : m < 2 ^ 32) :
    m / 2 ||| 0x80000000 = (m + 2 ^ 32) / 2 := by
  have hhalf : m / 2 < 2 ^ 31 := by omega
  rw [show (0x80000000 : Nat) = 2 ^ 31 * 1 from rfl, Nat.or_comm,
    ← Nat.two_pow_add_eq_or_of_lt hhalf]
  omega

theorem estimate_spec {i : Nat} (ha : a < 2 ^ 64) (hi : i < 32) (hb : 2 ^ (32 + i) ≤ b)
    (hlt : b / 2 ^ (i + 1) < 2 ^ 32) (hebx : s.ebx = b / 2 ^ (i + 1))
    (hecx : s.ecx = 2 ^ 32 - 1 - i) (hedx : s.edx = a / 2 ^ 32) (heax : s.eax = a % 2 ^ 32) :
    ∃ t, estimate s = some t ∧ t.eax = a / rounded b (i + 1) ∧
      t.edi = a / rounded b (i + 1) ∧ t.stack = s.edi :: s.stack := by
  have hsplit : 2 ^ (32 + i) = 2 ^ 31 * 2 ^ (i + 1) := by rw [← pow_add]; congr 1; omega
  have hge : 2 ^ 31 ≤ b / 2 ^ (i + 1) := by
    rw [Nat.le_div_iff_mul_le (Nat.two_pow_pos _), ← hsplit]
    exact hb
  have hlow : a % 2 ^ 32 < 2 ^ 32 := Nat.mod_lt a (Nat.two_pow_pos 32)
  -- The estimate is the quotient by the leading bits without its low `i + 1`.
  have hquot : ∀ m, m = a / (b / 2 ^ (i + 1)) / 2 → m / 2 ^ i = a / rounded b (i + 1) := by
    rintro m rfl
    rw [Nat.div_div_eq_div_mul _ 2, ← Nat.pow_succ', Nat.div_div_eq_div_mul, rounded]
  rw [estimate]
  split
  · next hbelow =>
    have hword : s.edx * 2 ^ 32 + s.eax = a := by rw [hedx, heax, Nat.div_add_mod']
    rw [div_spec hbelow (by rw [heax]; exact hlow), Option.map_some]
    refine ⟨_, congrArg some (scale_eq 0 _ hi hecx), ?_, ?_, rfl⟩
    · exact hquot _ (by rw [Nat.or_zero, hword, hebx])
    · exact hquot _ (by rw [Nat.or_zero, hword, hebx])
  · next habove =>
    have hbelow : s.edx - s.ebx < s.ebx := by omega
    have hword : (s.edx - s.ebx) * 2 ^ 32 + s.eax + s.ebx * 2 ^ 32 = a := by
      rw [Nat.add_right_comm, ← Nat.add_mul, Nat.sub_add_cancel (by omega), hedx, heax,
        Nat.div_add_mod']
    have hm : ((s.edx - s.ebx) * 2 ^ 32 + s.eax) / s.ebx < 2 ^ 32 :=
      div_lt_word hbelow (by rw [heax]; exact hlow)
    have hdiv : a / (b / 2 ^ (i + 1))
        = ((s.edx - s.ebx) * 2 ^ 32 + s.eax) / s.ebx + 2 ^ 32 := by
      rw [← hebx, ← Nat.add_mul_div_left _ _ (show 0 < s.ebx by omega), hword]
    rw [div_spec hbelow (by rw [heax]; exact hlow), Option.map_some]
    refine ⟨_, congrArg some (scale_eq _ _ hi hecx), ?_, ?_, rfl⟩
    · exact hquot _ (by rw [hdiv]; exact half_of_high hm)
    · exact hquot _ (by rw [hdiv]; exact half_of_high hm)

/-- The difference of two numbers of two words, from the borrow of the low ones. -/
theorem difference_words {a p : Nat} (ha : a < 2 ^ 64) (hp : p ≤ a) :
    difference 32 (a / 2 ^ 32) (p / 2 ^ 32 + (decide (a % 2 ^ 32 < p % 2 ^ 32)).toNat) * 2 ^ 32
      + difference 32 (a % 2 ^ 32) (p % 2 ^ 32) = a - p := by
  rcases Nat.lt_or_ge (a % 2 ^ 32) (p % 2 ^ 32) with hlt | hge
  · rw [decide_eq_true hlt, Bool.toNat_true, difference_of_le (by omega) (by omega),
      difference_of_lt hlt (by omega)]
    omega
  · rw [decide_eq_false (by omega), Bool.toNat_false, Nat.add_zero,
      difference_of_le (by omega) (by omega), difference_of_le hge (by omega)]
    omega

/-- The difference of the high words, behind that of two numbers `a` and `p`. -/
theorem difference_high {a p h c d : Nat} (ha : a < 2 ^ 64) (hh : h * 2 ^ 32 ≤ a)
    (hd : d < 2 ^ 32) (hwords : c * 2 ^ 32 + d + p = a) :
    (c < h ↔ a < p + h * 2 ^ 32) ∧ difference 32 c h * 2 ^ 32 + d
      = if p + h * 2 ^ 32 ≤ a then a - (p + h * 2 ^ 32) else a + 2 ^ 64 - (p + h * 2 ^ 32) := by
  constructor
  · omega
  · rcases Nat.lt_or_ge c h with hlt | hge
    · obtain ⟨e, he⟩ : ∃ e, c + 2 ^ 32 = h + e := Nat.exists_eq_add_of_le (by omega)
      have hmul : c * 2 ^ 32 + 2 ^ 64 = h * 2 ^ 32 + e * 2 ^ 32 := by
        rw [← Nat.add_mul, ← he, Nat.add_mul, ← pow_add]
      rw [if_neg (by omega), difference_of_lt hlt (by omega), he, Nat.add_sub_cancel_left]
      apply Nat.eq_sub_of_add_eq
      linarith
    · obtain ⟨e, rfl⟩ := Nat.exists_eq_add_of_le hge
      rw [if_pos (by omega), difference_of_le hge (by omega), Nat.add_sub_cancel_left]
      apply Nat.eq_sub_of_add_eq
      linarith

/-- The product of the estimate and the divisor without its low bits is not above the dividend, so
neither is that with one of its words. -/
theorem products_le {i q : Nat} (hhigh : b / 2 ^ 32 ≠ 0) (hq : q * rounded b i ≤ a)
    (hi : i ≤ 32) : b / 2 ^ 32 * q * 2 ^ 32 ≤ a ∧ q * (b % 2 ^ 32) ≤ a := by
  have hrounded : b / 2 ^ 32 * 2 ^ 32 ≤ rounded b i := rounded_antitone b hi
  have hone : 1 ≤ b / 2 ^ 32 := Nat.one_le_iff_ne_zero.mpr hhigh
  have hlow : b % 2 ^ 32 < 2 ^ 32 := Nat.mod_lt b (Nat.two_pow_pos 32)
  have hword : 2 ^ 32 ≤ b / 2 ^ 32 * 2 ^ 32 := Nat.le_mul_of_pos_left _ hone
  constructor
  · calc b / 2 ^ 32 * q * 2 ^ 32 = q * (b / 2 ^ 32 * 2 ^ 32) := by ring
      _ ≤ q * rounded b i := Nat.mul_le_mul_left q hrounded
      _ ≤ a := hq
  · calc q * (b % 2 ^ 32) ≤ q * rounded b i := Nat.mul_le_mul_left q (by omega)
      _ ≤ a := hq

/-- The last subtraction borrows exactly if the product is above the dividend. -/
theorem subtract_spec {i q : Nat} (ha : a < 2 ^ 64) (hhigh : b / 2 ^ 32 ≠ 0)
    (hq : q * rounded b i ≤ a) (hi : i ≤ 32) (heax : s.eax = q) (hedi : s.edi = q)
    (hstack : s.stack = frame [x, y] ret a b rest) :
    (subtract s).cf = decide (a < q * b) ∧
      (subtract s).ecx * 2 ^ 32 + (subtract s).ebx
        = (if q * b ≤ a then a - q * b else a + 2 ^ 64 - q * b) ∧
      (subtract s).ebx < 2 ^ 32 ∧ (subtract s).ecx < 2 ^ 32 := by
  obtain ⟨hhigh', hlow'⟩ := products_le hhigh hq hi
  have hargs : s.arg 12 = a % 2 ^ 32 ∧ s.arg 16 = a / 2 ^ 32 ∧ s.arg 20 = b % 2 ^ 32 ∧
      s.arg 24 = b / 2 ^ 32 := by
    simp only [Regs.arg, hstack, frame]
    exact ⟨rfl, rfl, rfl, rfl⟩
  obtain ⟨h12, h16, h20, h24⟩ := hargs
  obtain ⟨p, hp⟩ : ∃ p, q * (b % 2 ^ 32) = p := ⟨_, rfl⟩
  obtain ⟨h, hh⟩ : ∃ h, b / 2 ^ 32 * q = h := ⟨_, rfl⟩
  rw [hp] at hlow'
  rw [hh] at hhigh'
  have hproduct : q * b = p + h * 2 ^ 32 := by
    conv_lhs => rw [← Nat.mod_add_div b (2 ^ 32)]
    rw [← hp, ← hh]
    ring
  -- The words of the dividend less the product with the low word of the divisor.
  obtain ⟨c, hc⟩ : ∃ c, difference 32 (a / 2 ^ 32)
      (p / 2 ^ 32 + (decide (a % 2 ^ 32 < p % 2 ^ 32)).toNat) = c := ⟨_, rfl⟩
  obtain ⟨d, hd⟩ : ∃ d, difference 32 (a % 2 ^ 32) (p % 2 ^ 32) = d := ⟨_, rfl⟩
  have hwords : c * 2 ^ 32 + d + p = a := by
    rw [← hc, ← hd, difference_words ha hlow', Nat.sub_add_cancel hlow']
  have hdlt : d < 2 ^ 32 := hd ▸ Nat.mod_lt _ (Nat.two_pow_pos 32)
  have hebx : (subtract s).ebx = d := by
    change difference 32 (s.arg 12) (s.eax * s.arg 20 % 2 ^ 32) = d
    rw [h12, h20, heax, hp, hd]
  have hfactor : s.arg 24 * s.edi % 2 ^ 32 = h := by
    rw [h24, hedi, hh, Nat.mod_eq_of_lt (by omega)]
  have hdiff : difference 32 (s.arg 16) (s.eax * s.arg 20 / 2 ^ 32
      + (decide (s.arg 12 < s.eax * s.arg 20 % 2 ^ 32)).toNat) = c := by
    rw [h12, h16, h20, heax, hp, hc]
  have hecx : (subtract s).ecx = difference 32 c h := by rw [← hdiff, ← hfactor]; rfl
  have hcf : (subtract s).cf = decide (c < h) := by rw [← hdiff, ← hfactor]; rfl
  obtain ⟨hborrow, hvalue⟩ := difference_high ha hhigh' hdlt hwords
  rw [hcf, hecx, hebx, hproduct]
  exact ⟨decide_eq_decide.mpr hborrow, hvalue, hdlt, Nat.mod_lt _ (Nat.two_pow_pos 32)⟩

/-! ## The two ways through the text -/

/-- A divisor of one word: the second `div` has the remainder in `EDX`, and the quotient in `EBX`
and `EAX`. -/
theorem divideByWord_spec (ha : a < 2 ^ 64) (hpos : 0 < b) (hb : b < 2 ^ 32)
    (hstack : s.stack = frame [x] ret a b rest) :
    ∃ t, divideByWord s = some t ∧ t.ebx * 2 ^ 32 + t.eax = a / b ∧ t.eax < 2 ^ 32 ∧
      t.edx = a % b ∧ t.edi = s.edi ∧ t.stack = s.stack := by
  have harg : s.arg 12 = a / 2 ^ 32 ∧ s.arg 16 = b % 2 ^ 32 ∧ s.arg 8 = a % 2 ^ 32 := by
    simp only [Regs.arg, hstack, frame]
    exact ⟨rfl, rfl, rfl⟩
  obtain ⟨h12, h16, h8⟩ := harg
  have hlow : a % 2 ^ 32 < 2 ^ 32 := Nat.mod_lt a (Nat.two_pow_pos 32)
  obtain ⟨hquot, hrem⟩ := @div_of_word 32 (a / 2 ^ 32) (a % 2 ^ 32) b hpos
  rw [Nat.div_add_mod'] at hquot hrem
  have hfirst := div_spec (s := { s with eax := s.arg 12, ecx := s.arg 16, edx := 0 })
    (y := s.arg 16) (by rw [h16, Nat.mod_eq_of_lt hb]; exact hpos)
    (show s.arg 12 < 2 ^ 32 by rw [h12]; omega)
  rw [Nat.zero_mul, Nat.zero_add, h12, h16, Nat.mod_eq_of_lt hb] at hfirst
  have hsecond := div_spec (s := { s with
      eax := a % 2 ^ 32
      ebx := a / 2 ^ 32 / b
      ecx := b
      edx := a / 2 ^ 32 % b }) (y := b) (Nat.mod_lt _ hpos) hlow
  have hrun : divideByWord s = Regs.div { s with
      eax := a % 2 ^ 32, ebx := a / 2 ^ 32 / b, ecx := b, edx := a / 2 ^ 32 % b } b := by
    rw [divideByWord, h12, h16, Nat.mod_eq_of_lt hb, hfirst, ← h8]
    rfl
  refine ⟨_, hrun.trans hsecond, ?_, ?_, ?_, rfl, rfl⟩
  · exact hquot.symm
  · exact div_lt_word (Nat.mod_lt _ hpos) hlow
  · exact hrem.symm

/-- A divisor of two words: the estimate is one too large exactly if the carry flag is set. -/
theorem estimated_spec (ha : a < 2 ^ 64) (hb : b < 2 ^ 64) (hhigh : b / 2 ^ 32 ≠ 0)
    (hebx : s.ebx = b / 2 ^ 32) (hstack : s.stack = frame [x] ret a b rest) :
    ∃ q t, estimate (normalize s) = some t ∧ a / b ≤ q ∧ q ≤ a / b + 1 ∧ q < 2 ^ 32 ∧
      (subtract t).edi = q ∧ (subtract t).cf = decide (a < q * b) ∧
      (subtract t).ecx * 2 ^ 32 + (subtract t).ebx
        = (if q * b ≤ a then a - q * b else a + 2 ^ 64 - q * b) ∧
      (subtract t).ebx < 2 ^ 32 ∧ (subtract t).ecx < 2 ^ 32 ∧
      (subtract t).stack = frame [s.edi, x] ret a b rest := by
  obtain ⟨hi, hle, hlt⟩ := leading_spec hb hhigh
  obtain ⟨hebx', hecx, hedx, heax, hstack', hedi⟩ := normalize_spec (a := a) hb hhigh hebx hstack
  have hfits : b / 2 ^ (leading b + 1) < 2 ^ 32 := by
    obtain ⟨hbits, hword⟩ := leading_bits hi hlt (Nat.mod_lt b (Nat.two_pow_pos 32))
    rw [Nat.div_add_mod'] at hbits
    rw [hbits]
    apply Nat.or_lt_two_pow hword
    exact Nat.lt_of_le_of_lt (Nat.div_le_self _ _) (Nat.mod_lt b (Nat.two_pow_pos 32))
  obtain ⟨t, ht, heax', hedi', hstack''⟩ :=
    estimate_spec ha hi hle hfits hebx' hecx hedx heax
  obtain ⟨hlow, hup⟩ := rounded_div_le (w := 32) ha hi hle
  rw [hstack', hstack, hedi] at hstack''
  obtain ⟨hcf, hvalue, hebx'', hecx'⟩ := subtract_spec (i := leading b + 1) ha hhigh
    (Nat.div_mul_le_self a _) hi heax' hedi' hstack''
  have hword : a / rounded b (leading b + 1) < 2 ^ 32 := by
    obtain ⟨hle', -⟩ :=
      products_le (i := leading b + 1) hhigh (Nat.div_mul_le_self a _) (Nat.succ_le_of_lt hi)
    have hone : a / rounded b (leading b + 1) ≤ b / 2 ^ 32 * (a / rounded b (leading b + 1)) :=
      Nat.le_mul_of_pos_left _ (Nat.pos_of_ne_zero hhigh)
    omega
  exact ⟨_, t, ht, hlow, hup, hword, hedi', hcf, hvalue, hebx'', hecx', hstack''⟩

end Steps

/-! ## The routines -/

/-- Zero faults at the first `div`. -/
theorem divideByWord_zero {s : Regs} {a x ret : Nat} {rest : List Nat}
    (hstack : s.stack = frame [x] ret a 0 rest) : divideByWord s = none := by
  have harg : s.arg 16 = 0 := by
    simp only [Regs.arg, hstack, frame]
    rfl
  rw [divideByWord, harg, Regs.div, if_pos (Or.inl rfl)]
  rfl

section Routines

variable (s : Regs) (ret : Nat) {a b : Nat} (rest : List Nat)

theorem start_call :
    (start (s.call ret a b rest)).ebx = b / 2 ^ 32 ∧
      (start (s.call ret a b rest)).stack = frame [s.ebx] ret a b rest ∧
      (start (s.call ret a b rest)).edi = s.edi := ⟨rfl, rfl, rfl⟩

/-- The returns pop what the routines have pushed. -/
theorem returned_of_word {t : Regs} {v : Nat} (hstack : t.stack = frame [s.ebx] ret a b rest)
    (hedi : t.edi = s.edi) (hvalue : t.edx * 2 ^ 32 + t.eax = v) (hlow : t.eax < 2 ^ 32) :
    Returned s ret a b rest v t.popEbx.ret := by
  refine ⟨hvalue, hlow, ?_, hedi, ?_, ?_⟩
  · rw [Regs.ret, Regs.popEbx, hstack]
    rfl
  · rw [Regs.ret, Regs.popEbx, hstack]
    rfl
  · rw [Regs.ret, Regs.popEbx, hstack]
    rfl

theorem returned_of_words {t : Regs} {v : Nat} (hstack : t.stack = frame [s.edi, s.ebx] ret a b rest)
    (hvalue : t.edx * 2 ^ 32 + t.eax = v) (hlow : t.eax < 2 ^ 32) :
    Returned s ret a b rest v t.popEdi.popEbx.ret := by
  apply returned_of_word s ret rest (t := t.popEdi) _ _ hvalue hlow
  · rw [Regs.popEdi, hstack]
    rfl
  · rw [Regs.popEdi, hstack]
    rfl

theorem udivdi3_of_word {t : Regs} (h : (start s).ebx = 0) (ht : divideByWord (start s) = some t) :
    udivdi3 s = some ({ t with edx := t.ebx } : Regs).popEbx.ret := by
  rw [udivdi3, if_pos h, ht]
  rfl

theorem udivdi3_of_words {t : Regs} (h : (start s).ebx ≠ 0)
    (ht : estimate (normalize (start s)) = some t) :
    udivdi3 s = some ({ subtract t with
      edi := difference 32 (subtract t).edi (subtract t).cf.toNat
      edx := 0
      eax := difference 32 (subtract t).edi (subtract t).cf.toNat } : Regs).popEdi.popEbx.ret := by
  rw [udivdi3, if_neg h, ht]
  rfl

theorem umoddi3_of_word {t : Regs} (h : (start s).ebx = 0) (ht : divideByWord (start s) = some t) :
    umoddi3 s = some ({ t with eax := t.edx, edx := 0 } : Regs).popEbx.ret := by
  rw [umoddi3, if_pos h, ht]
  rfl

/-- The addition of the divisor behind a borrow. -/
def addBack (t : Regs) : Regs :=
  let low := t.ebx + t.arg 20
  { t with ebx := low % 2 ^ 32, ecx := (t.ecx + t.arg 24 + low / 2 ^ 32) % 2 ^ 32 }

theorem umoddi3_of_words {t u : Regs} (h : (start s).ebx ≠ 0)
    (ht : estimate (normalize (start s)) = some t)
    (hu : u = if (subtract t).cf then addBack (subtract t) else subtract t) :
    umoddi3 s = some ({ u with eax := u.ebx, edx := u.ecx } : Regs).popEdi.popEbx.ret := by
  rw [umoddi3, if_neg h, ht, hu]
  rfl

end Routines

theorem div_zero (s : Regs) (ret a : Nat) (rest : List Nat) :
    udivdi3 (s.call ret a 0 rest) = none ∧ umoddi3 (s.call ret a 0 rest) = none := by
  obtain ⟨-, hstack, -⟩ := start_call s ret (a := a) (b := 0) rest
  have hebx : (start (s.call ret a 0 rest)).ebx = 0 := rfl
  have hnone := divideByWord_zero hstack
  constructor
  · rw [udivdi3, if_pos hebx, hnone]
    rfl
  · rw [umoddi3, if_pos hebx, hnone]
    rfl

/-- The last `sbb` of `__udivdi3`. -/
theorem difference_borrow {a b q : Nat} (hq : q < 2 ^ 32) :
    difference 32 q (decide (a < q * b)).toNat = if q * b ≤ a then q else q - 1 := by
  split
  · next h =>
    rw [decide_eq_false (Nat.not_lt.mpr h), Bool.toNat_false, difference_of_le (Nat.zero_le q) hq,
      Nat.sub_zero]
  · next h =>
    have hone : 1 ≤ q := by
      rcases Nat.eq_zero_or_pos q with hzero | hpos
      · rw [hzero, Nat.zero_mul] at h
        omega
      · exact hpos
    rw [decide_eq_true (Nat.lt_of_not_le h), Bool.toNat_true, difference_of_le hone hq]

/-- `__udivdi3` returns the quotient of any two numbers, and faults for a divisor of zero only. -/
theorem udivdi3_spec (s : Regs) (ret : Nat) {a b : Nat} (rest : List Nat) (ha : a < 2 ^ 64)
    (hb : b < 2 ^ 64) :
    (b ≠ 0 → ∃ r, udivdi3 (s.call ret a b rest) = some r ∧ Returned s ret a b rest (a / b) r) ∧
      (b = 0 → udivdi3 (s.call ret a b rest) = none) := by
  refine ⟨fun hpos => ?_, fun hzero => by rw [hzero]; exact (div_zero s ret a rest).1⟩
  obtain ⟨hebx, hstack, hedi⟩ := start_call s ret (a := a) (b := b) rest
  rcases Nat.eq_zero_or_pos (b / 2 ^ 32) with hone | hhigh
  · obtain ⟨t, ht, hvalue, hlow, -, hedi', hstack'⟩ :=
      divideByWord_spec ha (by omega) (by omega) hstack
    refine ⟨_, udivdi3_of_word _ (hebx.trans hone) ht, ?_⟩
    exact returned_of_word s ret rest (hstack'.trans hstack) (hedi'.trans hedi) hvalue hlow
  · obtain ⟨q, t, ht, hle, hge, hword, hq, hcf, -, -, -, hstack'⟩ :=
      estimated_spec ha hb (by omega) hebx hstack
    have hquot : difference 32 (subtract t).edi (subtract t).cf.toNat = a / b := by
      rw [hq, hcf, quotient_of_trial (by omega) hle hge]
      exact difference_borrow hword
    refine ⟨_, udivdi3_of_words _ (by omega) ht, returned_of_words s ret rest ?_ ?_ ?_⟩
    · exact hstack'.trans (by rw [hedi])
    · change 0 * 2 ^ 32 + difference 32 (subtract t).edi (subtract t).cf.toNat = a / b
      rw [hquot, Nat.zero_mul, Nat.zero_add]
    · exact Nat.mod_lt _ (Nat.two_pow_pos 32)

/-- A processor with zeros in its registers. -/
def zeros : Regs := ⟨0, 0, 0, 0, 0, false, []⟩

theorem udivdi3_spec_words : ∃ r, udivdi3 (zeros.call 0x1000 (2 ^ 63 + 7) (2 ^ 32 + 3) [])
    = some r ∧ Returned zeros 0x1000 (2 ^ 63 + 7) (2 ^ 32 + 3) [] 2147483646 r :=
  (udivdi3_spec zeros 0x1000 [] (by decide) (by decide)).1 (by decide)

/-- The addition of the divisor to the difference. -/
theorem addBack_spec {t : Regs} {ret a b q x y : Nat} {rest : List Nat} (hb : b < 2 ^ 64)
    (hstack : t.stack = frame [x, y] ret a b rest) (hlt : a < q * b) (hle : q * b ≤ a + b)
    (hvalue : t.ecx * 2 ^ 32 + t.ebx = a + 2 ^ 64 - q * b) :
    (addBack t).ecx * 2 ^ 32 + (addBack t).ebx = a + b - q * b ∧ (addBack t).ebx < 2 ^ 32 := by
  have hargs : t.arg 20 = b % 2 ^ 32 ∧ t.arg 24 = b / 2 ^ 32 := by
    simp only [Regs.arg, hstack, frame]
    exact ⟨rfl, rfl⟩
  obtain ⟨h20, h24⟩ := hargs
  refine ⟨?_, Nat.mod_lt _ (Nat.two_pow_pos 32)⟩
  change (t.ecx + t.arg 24 + (t.ebx + t.arg 20) / 2 ^ 32) % 2 ^ 32 * 2 ^ 32
    + (t.ebx + t.arg 20) % 2 ^ 32 = a + b - q * b
  have hborrow : a + 2 ^ 64 - q * b + b = a + b - q * b + 2 ^ 64 := by omega
  rw [h20, h24, add_words, hvalue, Nat.div_add_mod', hborrow, Nat.add_mod_right,
    Nat.mod_eq_of_lt (show a + b - q * b < 2 ^ (2 * 32) by omega)]

/-- `__umoddi3` returns the remainder of any two numbers, and faults for a divisor of zero only. -/
theorem umoddi3_spec (s : Regs) (ret : Nat) {a b : Nat} (rest : List Nat) (ha : a < 2 ^ 64)
    (hb : b < 2 ^ 64) :
    (b ≠ 0 → ∃ r, umoddi3 (s.call ret a b rest) = some r ∧ Returned s ret a b rest (a % b) r) ∧
      (b = 0 → umoddi3 (s.call ret a b rest) = none) := by
  refine ⟨fun hpos => ?_, fun hzero => by rw [hzero]; exact (div_zero s ret a rest).2⟩
  obtain ⟨hebx, hstack, hedi⟩ := start_call s ret (a := a) (b := b) rest
  rcases Nat.eq_zero_or_pos (b / 2 ^ 32) with hone | hhigh
  · obtain ⟨t, ht, -, -, hrem, hedi', hstack'⟩ :=
      divideByWord_spec ha (by omega) (by omega) hstack
    have hlt : a % b < b := Nat.mod_lt a (Nat.pos_of_ne_zero hpos)
    refine ⟨_, umoddi3_of_word _ (hebx.trans hone) ht, returned_of_word s ret rest ?_ ?_ ?_ ?_⟩
    · exact hstack'.trans hstack
    · exact hedi'.trans hedi
    · change 0 * 2 ^ 32 + t.edx = a % b
      rw [hrem, Nat.zero_mul, Nat.zero_add]
    · change t.edx < 2 ^ 32
      omega
  · obtain ⟨q, t, ht, hle, hge, -, -, hcf, hvalue, hlow, -, hstack'⟩ :=
      estimated_spec ha hb (by omega) hebx hstack
    have hrem := remainder_of_trial (by omega) hle hge
    have hstart : (start (s.call ret a b rest)).ebx ≠ 0 := by omega
    rw [hedi] at hstack'
    rcases Nat.lt_or_ge a (q * b) with hlt | hge'
    · -- The estimate is one too large.
      have hset : (subtract t).cf = true := hcf.trans (decide_eq_true hlt)
      have hmul : q * b ≤ a + b := by
        calc q * b ≤ (a / b + 1) * b := Nat.mul_le_mul_right b hge
          _ = a / b * b + b := Nat.succ_mul _ _
          _ ≤ a + b := Nat.add_le_add_right (Nat.div_mul_le_self a b) b
      rw [if_neg (by omega)] at hvalue hrem
      obtain ⟨hback, hlow'⟩ := addBack_spec hb hstack' hlt hmul hvalue
      refine ⟨_, umoddi3_of_words _ hstart ht (if_pos hset).symm,
        returned_of_words s ret rest ?_ ?_ ?_⟩
      · exact hstack'
      · exact hback.trans hrem.symm
      · exact hlow'
    · have hclear : ¬ (subtract t).cf = true := by
        rw [hcf, decide_eq_true_iff]
        omega
      rw [if_pos hge'] at hvalue hrem
      refine ⟨_, umoddi3_of_words _ hstart ht (if_neg hclear).symm,
        returned_of_words s ret rest ?_ ?_ ?_⟩
      · exact hstack'
      · exact hvalue.trans hrem.symm
      · exact hlow

theorem umoddi3_spec_words : ∃ r, umoddi3 (zeros.call 0x1000 (2 ^ 63 + 7) (2 ^ 32 + 3) [])
    = some r ∧ Returned zeros 0x1000 (2 ^ 63 + 7) (2 ^ 32 + 3) [] 2147483661 r :=
  (umoddi3_spec zeros 0x1000 [] (by decide) (by decide)).1 (by decide)

end Xeos.System.Division
