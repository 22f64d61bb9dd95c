import Mathlib.Logic.Function.Basic
import Mathlib.Tactic.Basic
import Xeos.Lib.Bytes
import Xeos.Lib.Loop
import Xeos.Lib.Numeral
import Xeos.Lib.Real

/-!
# The conversion of numbers to strings

`XEOS.16.string.numberToString`, and the procedures of the same text for the protected and for
the long mode.  The three differ in the width of the registers, in the width of the counters
and offsets, and in what the start and the end of the procedure save, so they are one
definition over a `Mode`.

`Mode.Laws` says what an implementation of the instructions has to do to a `View` of the state:
the registers, the words on the stack and the text at the destination.  `convert_spec` is about
every mode with these laws.
-/

namespace Xeos.Boot

open Lib

namespace NumberToString

/-- The registers that the procedures use. -/
inductive Reg
  | ax | bx | cx | dx | si | di
deriving DecidableEq, Repr

def Reg.real : Reg → Real.Reg
  | .ax => .ax
  | .bx => .bx
  | .cx => .cx
  | .dx => .dx
  | .si => .si
  | .di => .di

theorem Reg.real_ne {r r' : Reg} (h : r ≠ r') : r.real ≠ r'.real := by
  cases r <;> cases r' <;> first | exact absurd rfl h | exact nofun

theorem Reg.real_ne_sp (r : Reg) : r.real ≠ .sp := by
  cases r <;> exact nofun

theorem Reg.real_ne_bp (r : Reg) : r.real ≠ .bp := by
  cases r <;> exact nofun

/-- The instructions of a mode, on the states `S` of its processor.  A register has `bits` bits;
`offsetBits` of them are a counter or an offset. -/
structure Mode (S : Type) where
  bits : Nat
  offsetBits : Nat
  reg : S → Reg → Nat
  setReg : S → Reg → Nat → S
  /-- Write a byte at an offset in the data segment. -/
  put : S → Nat → Nat → S
  /-- Push the `n` bytes of a value. -/
  push : S → Nat → Nat → S
  peek : S → Nat → Nat
  drop : S → Nat → S
  procStart : S → S
  procEnd : S → S

/-- The signed comparison of `jg`. -/
def greater (bits a b : Nat) : Bool := (BitVec.ofNat bits b).slt (BitVec.ofNat bits a)

namespace Mode

variable {S : Type} (M : Mode S)

/-- A counter or an offset. -/
def word (c : S) (r : Reg) : Nat := M.reg c r % 2 ^ M.offsetBits

def setWord (c : S) (r : Reg) (v : Nat) : S :=
  M.setReg c r (M.reg c r / 2 ^ M.offsetBits * 2 ^ M.offsetBits + v % 2 ^ M.offsetBits)

/-- Add to the low byte of a register. -/
def addLow (c : S) (r : Reg) (v : Nat) : S :=
  M.setReg c r (M.reg c r / 2 ^ 8 * 2 ^ 8 + (M.reg c r + v) % 2 ^ 8)

def pushReg (c : S) (r : Reg) : S := M.push c (M.bits / 8) (M.reg c r)

def popReg (c : S) (r : Reg) : S := M.setReg (M.drop c (M.bits / 8)) r (M.peek c (M.bits / 8))

def pushWord (c : S) (r : Reg) : S := M.push c (M.offsetBits / 8) (M.word c r)

def popWord (c : S) (r : Reg) : S :=
  M.setWord (M.drop c (M.offsetBits / 8)) r (M.peek c (M.offsetBits / 8))

/-- One round of a loop that ends with `loop`. -/
def countDown (f : S → S) (c : S) : S :=
  let c := f c
  M.setWord c .cx (M.word c .cx + 2 ^ M.offsetBits - 1)

def loop (f : S → S) (c : S) : S :=
  forLoop (fun _ => M.countDown f) (if M.word c .cx = 0 then 2 ^ M.offsetBits else M.word c .cx) c

/-- Store a byte, and go to the next one. -/
def putNext (c : S) (v : Nat) : S :=
  let c := M.put c (M.word c .di) v
  M.setWord c .di (M.word c .di + 1)

/-- `.prefix.hex` -/
def prefixHex (c : S) : S :=
  let c := M.setWord c .si (M.word c .cx)
  if M.word c .dx = 0x01 then
    let c := M.put c (M.word c .di) 0x30
    let c := M.put c (M.word c .di + 1) 0x78
    M.setWord c .di (M.word c .di + 0x02)
  else c

/-- One round of `.divide`, which may be a divide error. -/
def divide (c : S) : Option S :=
  let c := M.setReg c .dx 0
  let n := M.reg c .dx * 2 ^ M.bits + M.reg c .ax
  let base := M.reg c .bx
  if base = 0 ∨ 2 ^ M.bits ≤ n / base then none
  else
    let c := M.setReg (M.setReg c .ax (n / base)) .dx (n % base)
    let c := M.pushReg c .dx
    some (M.setReg c .cx (M.reg c .cx + 1))

/-- The loop of `.divide`. -/
def divideLoop : Nat → S → Option S
  | 0, _ => none
  | fuel + 1, c =>
    (M.divide c).bind fun c => if greater M.bits (M.reg c .ax) 0 then divideLoop fuel c else some c

/-- `.hex`, up to `.hex.pad.done`. -/
def hexPad (c : S) : S :=
  let c := M.pushWord c .cx
  let c :=
    if greater M.offsetBits (M.word c .si) (M.word c .cx) then
      let c := M.setWord c .si (M.word c .si + 2 ^ M.offsetBits - M.word c .cx)
      let c := M.setWord c .cx (M.word c .si)
      M.loop (fun c => M.putNext c 0x30) c
    else c
  M.popWord c .cx

/-- One round of `.hex.char`. -/
def hexChar (c : S) : S :=
  let c := M.popReg c .ax
  let c :=
    if greater M.bits (M.reg c .ax) 0x09 then M.addLow (M.addLow c .ax (2 ^ 8 - 0x0A)) .ax 0x41
    else M.addLow c .ax 0x30
  M.putNext c (M.reg c .ax % 2 ^ 8)

/-- One round of `.dec`. -/
def decChar (c : S) : S :=
  let c := M.popReg c .ax
  let c := M.addLow c .ax 0x30
  M.putNext c (M.reg c .ax % 2 ^ 8)

/-- From `.start` to `.end`. -/
def convert (fuel : Nat) (c : S) : Option S :=
  (M.divideLoop fuel (M.setReg c .cx 0)).map fun c =>
    let c :=
      if M.reg c .bx = 0x10 then M.loop M.hexChar (M.hexPad c) else M.loop M.decChar c
    M.put c (M.word c .di) 0

/-- The procedure.  The loop of the division may run for `fuel` rounds. -/
def numberToString (fuel : Nat) (c : S) : Option S :=
  let c := M.procStart c
  if M.reg c .bx = 0x10 then (M.convert fuel (M.prefixHex c)).map M.procEnd
  else if M.reg c .bx = 0x0A ∨ M.reg c .bx = 0x08 ∨ M.reg c .bx = 0x02 then
    (M.convert fuel c).map M.procEnd
  else some (M.procEnd c)

end Mode

/-! ## What they are for -/

/-- A digit, in upper case. -/
def digit (k : Nat) : UInt8 := UInt8.ofNat (if k < 10 then 0x30 + k else 0x41 + (k - 10))

/-- The text of a number.  The padding and the prefix are for hexadecimal numbers only. -/
def text (base padding : Nat) (withPrefix : Bool) (n : Nat) : List UInt8 :=
  let digits := numeral base digit n
  if base = 16 then
    (if withPrefix then [0x30, 0x78] else []) ++
      (List.replicate (padding - digits.length) 0x30 ++ digits)
  else digits

/-! ## Views -/

/-- What the procedures see of a state. -/
structure View where
  reg : Reg → Nat
  /-- The words on the stack, each with its size in bytes. -/
  stack : List (Nat × Nat)
  /-- What is written to the destination. -/
  text : List UInt8

def View.setReg (v : View) (r : Reg) (x : Nat) : View :=
  { v with reg := Function.update v.reg r x }

/-- What the instructions do to the view of a state.  The destination are `len` bytes at the
offset `d`, and there are `room` bytes on the stack. -/
structure Mode.Laws {S : Type} (M : Mode S) (Rep : S → View → Prop) (d len room : Nat) :
    Prop where
  bits : 8 ∣ M.bits ∧ 32 ≤ M.bits
  offsetBits : 8 ∣ M.offsetBits ∧ 16 ≤ M.offsetBits ∧ M.offsetBits ≤ M.bits
  fits : d + len ≤ 2 ^ M.offsetBits
  reg : ∀ c v r, Rep c v → M.reg c r = v.reg r
  setReg : ∀ c v r x, Rep c v → Rep (M.setReg c r x) (v.setReg r (x % 2 ^ M.bits))
  lt : ∀ c v r, Rep c v → v.reg r < 2 ^ M.bits
  put : ∀ c v x, Rep c v → v.text.length < len →
    Rep (M.put c (d + v.text.length) x) { v with text := v.text ++ [UInt8.ofNat x] }
  push : ∀ c v n x, Rep c v → x < 256 ^ n → n + Real.bytes v.stack ≤ room →
    Rep (M.push c n x) { v with stack := (n, x) :: v.stack }
  peek : ∀ c v n x fs, Rep c v → v.stack = (n, x) :: fs → M.peek c n = x
  drop : ∀ c v n x fs, Rep c v → v.stack = (n, x) :: fs → Rep (M.drop c n) { v with stack := fs }

/-! ## The steps -/

@[simp] theorem View.reg_setReg (v : View) (r : Reg) (x : Nat) : (v.setReg r x).reg r = x :=
  Function.update_self ..

theorem View.reg_setReg_of_ne (v : View) {r r' : Reg} (h : r' ≠ r) (x : Nat) :
    (v.setReg r x).reg r' = v.reg r' := Function.update_of_ne h ..

theorem greater_eq {bits a b : Nat} (ha : a < 2 ^ (bits - 1)) (hb : b < 2 ^ (bits - 1)) :
    greater bits a b = decide (b < a) := by
  have hpow : 2 ^ (bits - 1) ≤ 2 ^ bits := Nat.pow_le_pow_right (by decide) (Nat.sub_le bits 1)
  have hto : ∀ x < 2 ^ (bits - 1), (BitVec.ofNat bits x).toInt = x := by
    intro x hx
    cases bits with
    | zero =>
      have hzero : x = 0 := by
        simp at hx
        exact hx
      rw [hzero]
      rfl
    | succ n =>
      have hlt : 2 * x < 2 ^ (n + 1) := by
        rw [Nat.pow_succ]
        rw [Nat.add_sub_cancel] at hx
        omega
      rw [BitVec.toInt_eq_toNat_of_lt, BitVec.toNat_ofNat, Nat.mod_eq_of_lt (by omega)]
      rw [BitVec.toNat_ofNat, Nat.mod_eq_of_lt (by omega)]
      exact hlt
  rw [greater, BitVec.slt, hto a ha, hto b hb]
  exact decide_eq_decide.mpr Int.ofNat_lt

namespace Mode.Laws

variable {S : Type} {M : Mode S} {Rep : S → View → Prop} {d len room : Nat} {c : S} {v : View}
variable {r : Reg} {x : Nat}

/-- The offset register is behind the text. -/
def Aligned (M : Mode S) (d : Nat) (v : View) : Prop :=
  v.reg .di % 2 ^ M.offsetBits = d + v.text.length

theorem word (L : M.Laws Rep d len room) (h : Rep c v) :
    M.word c r = v.reg r % 2 ^ M.offsetBits := by
  rw [Mode.word, L.reg c v r h]

theorem setWord (L : M.Laws Rep d len room) (h : Rep c v) :
    ∃ y, Rep (M.setWord c r x) (v.setReg r y) ∧
      y % 2 ^ M.offsetBits = x % 2 ^ M.offsetBits := by
  refine ⟨_, L.setReg c v r _ h, ?_⟩
  rw [Nat.mod_mod_of_dvd _ (Nat.pow_dvd_pow 2 L.offsetBits.2.2), Nat.mul_comm,
    Nat.mul_add_mod, Nat.mod_mod]

theorem byte_lt (L : M.Laws Rep d len room) : 2 ^ 8 ≤ 2 ^ M.bits :=
  Nat.pow_le_pow_right (by decide) (by have h := L.bits.2; omega)

theorem addLow (L : M.Laws Rep d len room) (h : Rep c v) (hr : v.reg r < 2 ^ 8) :
    Rep (M.addLow c r x) (v.setReg r ((v.reg r + x) % 2 ^ 8)) := by
  have hset := L.setReg c v r (M.reg c r / 2 ^ 8 * 2 ^ 8 + (M.reg c r + x) % 2 ^ 8) h
  have hlt := L.byte_lt
  rw [L.reg c v r h, Nat.div_eq_of_lt hr, Nat.zero_mul, Nat.zero_add, Nat.mod_eq_of_lt
    (Nat.lt_of_lt_of_le (Nat.mod_lt _ (by decide)) hlt)] at hset
  rw [Mode.addLow, L.reg c v r h, Nat.div_eq_of_lt hr, Nat.zero_mul, Nat.zero_add]
  exact hset

theorem popReg (L : M.Laws Rep d len room) (h : Rep c v) {fs : List (Nat × Nat)}
    (hstack : v.stack = (M.bits / 8, x) :: fs) :
    Rep (M.popReg c r) (View.setReg { v with stack := fs } r (x % 2 ^ M.bits)) := by
  rw [Mode.popReg, L.peek c v _ _ _ h hstack]
  exact L.setReg _ _ _ _ (L.drop c v _ _ _ h hstack)

theorem pushReg (L : M.Laws Rep d len room) (h : Rep c v)
    (hroom : M.bits / 8 + Real.bytes v.stack ≤ room) :
    Rep (M.pushReg c r) { v with stack := (M.bits / 8, v.reg r) :: v.stack } := by
  have hpow : (256 : Nat) ^ (M.bits / 8) = 2 ^ M.bits := by
    rw [show (256 : Nat) = 2 ^ 8 from rfl, ← Nat.pow_mul, Nat.mul_div_cancel' L.bits.1]
  rw [Mode.pushReg, L.reg c v r h]
  exact L.push c v _ _ h (by rw [hpow]; exact L.lt c v r h) hroom

/-- A byte at the destination. -/
theorem putNext (L : M.Laws Rep d len room) (h : Rep c v) (hdi : Aligned M d v)
    (hlen : v.text.length + 1 < len) :
    ∃ v', Rep (M.putNext c x) v' ∧ Aligned M d v' ∧ v'.stack = v.stack ∧
      v'.text = v.text ++ [UInt8.ofNat x] ∧ ∀ r, r ≠ .di → v'.reg r = v.reg r := by
  have hput := L.put c v x h (by omega)
  obtain ⟨y, hset, hy⟩ := L.setWord (r := .di) (x := d + v.text.length + 1) hput
  have hword : M.word c .di = d + v.text.length := (L.word h).trans hdi
  have hword' : M.word (M.put c (d + v.text.length) x) .di = d + v.text.length :=
    (L.word hput).trans hdi
  have hfits := L.fits
  refine ⟨View.setReg { v with text := v.text ++ [UInt8.ofNat x] } .di y, ?_, ?_, rfl, rfl,
    fun r hr => View.reg_setReg_of_ne _ hr y⟩
  · rw [Mode.putNext, hword, hword']
    exact hset
  · rw [Aligned, View.reg_setReg, hy, Nat.mod_eq_of_lt (by omega)]
    exact (Nat.add_assoc ..).trans (by rw [View.setReg, List.length_append, List.length_singleton])

/-- The rule of `loop`: the counter is not one of the things that the invariant is about. -/
theorem loop (L : M.Laws Rep d len room) {f : S → S} {m : Nat} {I : Nat → View → Prop}
    (hm : 0 < m) (hcx : v.reg .cx % 2 ^ M.offsetBits = m) (h : Rep c v) (hinit : I 0 v)
    (hcount : ∀ j v y, I j v → I j (v.setReg .cx y))
    (hround : ∀ j c v, j < m → Rep c v → I j v → ∃ v', Rep (f c) v' ∧ I (j + 1) v') :
    ∃ v', Rep (M.loop f c) v' ∧ I m v' := by
  have hword : M.word c .cx = m := (L.word h).trans hcx
  rw [Mode.loop, hword, if_neg (by omega)]
  refine forLoop_inv _ m c (fun j c => ∃ v, Rep c v ∧ I j v) ⟨v, h, hinit⟩ ?_
  intro j c hj hc
  obtain ⟨v, h, hI⟩ := hc
  obtain ⟨v', h', hI'⟩ := hround j c v hj h hI
  obtain ⟨y, hset, -⟩ := L.setWord (r := .cx)
    (x := M.word (f c) .cx + 2 ^ M.offsetBits - 1) h'
  exact ⟨_, hset, hcount _ _ y hI'⟩

/-- One division. -/
theorem divide (L : M.Laws Rep d len room) (h : Rep c v) (hbase : 1 < v.reg .bx)
    (hroom : M.bits / 8 + Real.bytes v.stack ≤ room) :
    ∃ c' v', M.divide c = some c' ∧ Rep c' v' ∧
      v'.stack = (M.bits / 8, v.reg .ax % v.reg .bx) :: v.stack ∧ v'.text = v.text ∧
      v'.reg .ax = v.reg .ax / v.reg .bx ∧ v'.reg .cx = (v.reg .cx + 1) % 2 ^ M.bits ∧
      ∀ r, r ≠ .ax → r ≠ .cx → r ≠ .dx → v'.reg r = v.reg r := by
  have hax := L.lt c v .ax h
  have hbx := L.lt c v .bx h
  have hdiv : v.reg .ax / v.reg .bx < 2 ^ M.bits := Nat.lt_of_le_of_lt (Nat.div_le_self _ _) hax
  have hmod : v.reg .ax % v.reg .bx < 2 ^ M.bits := Nat.lt_trans (Nat.mod_lt _ (by omega)) hbx
  have hzero := L.setReg c v .dx 0 h
  rw [Nat.zero_mod] at hzero
  have hread : ∀ r, r ≠ .dx → M.reg (M.setReg c .dx 0) r = v.reg r := fun r hr =>
    (L.reg _ _ r hzero).trans (View.reg_setReg_of_ne v hr 0)
  have hread₀ : M.reg (M.setReg c .dx 0) .dx = 0 :=
    (L.reg _ _ .dx hzero).trans (View.reg_setReg v .dx 0)
  have hset := L.setReg _ _ .dx (v.reg .ax % v.reg .bx)
    (L.setReg _ _ .ax (v.reg .ax / v.reg .bx) hzero)
  rw [Nat.mod_eq_of_lt hdiv, Nat.mod_eq_of_lt hmod] at hset
  have hpush := L.pushReg (r := .dx) hset hroom
  have hcx := L.setReg _ _ .cx (v.reg .cx + 1) hpush
  have hread₁ : M.reg (M.pushReg (M.setReg (M.setReg (M.setReg c .dx 0) .ax
      (v.reg .ax / v.reg .bx)) .dx (v.reg .ax % v.reg .bx)) .dx) .cx = v.reg .cx := by
    rw [L.reg _ _ .cx hpush]
    rfl
  have hne : ¬ (v.reg .bx = 0 ∨ 2 ^ M.bits ≤ v.reg .ax / v.reg .bx) := by omega
  refine ⟨_, _, ?_, hcx, ?_, rfl, rfl, rfl, ?_⟩
  · simp only [Mode.divide, hread₀, hread .ax nofun, hread .bx nofun, Nat.zero_mul, Nat.zero_add,
      if_neg hne, hread₁]
  · rfl
  · intro r hax hcx hdx
    show (((((v.setReg .dx 0).setReg .ax _).setReg .dx _)).setReg .cx _).reg r = v.reg r
    rw [View.reg_setReg_of_ne _ hcx, View.reg_setReg_of_ne _ hdx, View.reg_setReg_of_ne _ hax,
      View.reg_setReg_of_ne _ hdx]

/-- All divisions: the digits are on the stack, the highest one on the top. -/
theorem divideLoop (L : M.Laws Rep d len room) {j : Nat} (h : Rep c v)
    (hbase : 1 < v.reg .bx) (hj : 0 < j) (hax : v.reg .ax < 2 ^ j)
    (hcount : v.reg .cx + j < 2 ^ M.bits)
    (hroom : M.bits / 8 * j + Real.bytes v.stack ≤ room) :
    ∃ c' v', (∀ fuel, j ≤ fuel → M.divideLoop fuel c = some c') ∧ Rep c' v' ∧
      v'.stack = (numeral (v.reg .bx) id (v.reg .ax)).map (fun x => (M.bits / 8, x)) ++ v.stack ∧
      v'.text = v.text ∧ v'.reg .cx = v.reg .cx + (numeral (v.reg .bx) id (v.reg .ax)).length ∧
      ∀ r, r ≠ .ax → r ≠ .cx → r ≠ .dx → v'.reg r = v.reg r := by
  induction j generalizing c v with
  | zero => exact absurd hj (Nat.lt_irrefl 0)
  | succ j ih =>
    have hroom₁ : M.bits / 8 * j + (M.bits / 8 + Real.bytes v.stack) ≤ room := by
      rw [Nat.mul_succ] at hroom
      omega
    obtain ⟨c₁, v₁, hdivide, h₁, hstack, htext, hax₁, hcx₁, hkeep⟩ :=
      L.divide h hbase (by omega)
    have hbx₁ : v₁.reg .bx = v.reg .bx := hkeep .bx nofun nofun nofun
    have hstep : ∀ fuel, M.divideLoop (fuel + 1) c
        = if 0 < v₁.reg .ax then M.divideLoop fuel c₁ else some c₁ := by
      intro fuel
      have hlt := L.lt c v .ax h
      have hge := L.bits.2
      have hhalf : v₁.reg .ax < 2 ^ (M.bits - 1) := by
        have hbits : 2 ^ M.bits = 2 * 2 ^ (M.bits - 1) := by
          rw [← Nat.pow_succ', Nat.succ_eq_add_one, Nat.sub_add_cancel (by omega)]
        rw [hax₁]
        exact Nat.div_lt_of_lt_mul (by nlinarith)
      rw [Mode.divideLoop, hdivide, Option.bind_some, L.reg c₁ v₁ .ax h₁,
        greater_eq hhalf (Nat.two_pow_pos _)]
      exact if_congr decide_eq_true_iff rfl rfl
    have hcx : v₁.reg .cx = v.reg .cx + 1 := by
      rw [hcx₁, Nat.mod_eq_of_lt (by omega)]
    rcases Nat.lt_or_ge (v.reg .ax) (v.reg .bx) with hlt | hge
    · have hzero : v₁.reg .ax = 0 := by rw [hax₁, Nat.div_eq_of_lt hlt]
      rw [numeral_of_lt hlt]
      refine ⟨c₁, v₁, fun fuel hfuel => ?_, h₁, ?_, htext, hcx, hkeep⟩
      · obtain ⟨fuel, rfl⟩ : ∃ f, fuel = f + 1 := ⟨fuel - 1, by omega⟩
        rw [hstep, if_neg (by omega)]
      · rw [hstack, Nat.mod_eq_of_lt hlt]
        rfl
    · have hpos : 0 < v₁.reg .ax := by
        rw [hax₁]
        exact Nat.div_pos hge (by omega)
      have hj' : 0 < j := by
        by_contra hzero
        have hj0 : j = 0 := by omega
        rw [hj0] at hax
        omega
      have hless : v₁.reg .ax < 2 ^ j := by
        rw [hax₁]
        rw [Nat.pow_succ] at hax
        exact Nat.div_lt_of_lt_mul (by nlinarith)
      obtain ⟨c', v', hloop, h', hstack', htext', hcx', hkeep'⟩ := ih h₁
        (by rw [hbx₁]; exact hbase) hj' hless (by omega) (by rw [hstack]; exact hroom₁)
      rw [hbx₁, hax₁] at hstack' hcx'
      refine ⟨c', v', fun fuel hfuel => ?_, h', ?_, htext'.trans htext, ?_,
        fun r h1 h2 h3 => ?_⟩
      · obtain ⟨fuel, rfl⟩ : ∃ f, fuel = f + 1 := ⟨fuel - 1, by omega⟩
        rw [hstep, if_pos hpos, hloop fuel (by omega)]
      · rw [hstack', hstack, numeral_of_le hbase hge, List.map_append, List.append_assoc]
        rfl
      · rw [hcx', hcx, numeral_of_le hbase hge, List.length_append, List.length_singleton]
        omega
      · rw [hkeep' r h1 h2 h3, hkeep r h1 h2 h3]

/-- The view of a state that prints the digits of `ds`. -/
structure Printing (M : Mode S) (d : Nat) (ds : List Nat) (fs : List (Nat × Nat))
    (text : List UInt8) (v : View) : Prop where
  aligned : Aligned M d v
  stack : v.stack = ds.map (fun x => (M.bits / 8, x)) ++ fs
  text : v.text = text

/-- A round that prints the digit on the top of the stack. -/
def Prints (M : Mode S) (Rep : S → View → Prop) (d len : Nat) (f : S → S) (base : Nat) : Prop :=
  ∀ c v x ds fs text, x < base → text.length + 1 < len → Rep c v →
    Printing M d (x :: ds) fs text v →
    ∃ v', Rep (f c) v' ∧ Printing M d ds fs (text ++ [digit x]) v'

/-- What the two kinds of round have in common: the character is `y`, in `AL`. -/
theorem printed (L : M.Laws Rep d len room) {x y : Nat} {ds : List Nat} {fs : List (Nat × Nat)}
    {text : List UInt8} (hlen : text.length + 1 < len) (h : Rep c v) (hax : v.reg .ax = y)
    (hy : y < 2 ^ 8) (hdigit : UInt8.ofNat y = digit x) (hprint : Printing M d ds fs text v) :
    ∃ v', Rep (M.putNext c (M.reg c .ax % 2 ^ 8)) v' ∧ Printing M d ds fs (text ++ [digit x]) v' := by
  obtain ⟨v', hput, haligned, hstack, htext, -⟩ := L.putNext (x := M.reg c .ax % 2 ^ 8) h
    hprint.aligned (by rw [hprint.text]; exact hlen)
  refine ⟨v', hput, haligned, hstack.trans hprint.stack, ?_⟩
  rw [htext, L.reg _ _ .ax h, hax, Nat.mod_eq_of_lt hy, hdigit, hprint.text]

namespace Printing

variable {ds : List Nat} {fs : List (Nat × Nat)} {text : List UInt8}

/-- The stack without the digit that is popped. -/
theorem pop {x : Nat} (h : Printing M d (x :: ds) fs text v) :
    Printing M d ds fs text { v with stack := ds.map (fun x => (M.bits / 8, x)) ++ fs } :=
  ⟨h.aligned, rfl, h.text⟩

theorem setReg (h : Printing M d ds fs text v) (hr : r ≠ .di) :
    Printing M d ds fs text (v.setReg r x) :=
  ⟨by rw [Aligned, View.reg_setReg_of_ne v hr.symm]; exact h.aligned, h.stack, h.text⟩

end Printing

theorem decChar (L : M.Laws Rep d len room) {base : Nat} (hbase : base ≤ 10) :
    Prints M Rep d len M.decChar base := by
  intro c v x ds fs text hx hlen h hprint
  have hax : Reg.ax ≠ .di := nofun
  have hlt := L.byte_lt
  have hpop := L.popReg (r := .ax) h hprint.stack
  rw [Nat.mod_eq_of_lt (by omega)] at hpop
  have hadd := L.addLow (r := .ax) (x := 0x30) hpop (by rw [View.reg_setReg]; omega)
  rw [View.reg_setReg, Nat.mod_eq_of_lt (by omega)] at hadd
  refine L.printed hlen hadd (View.reg_setReg _ _ _) (by omega) ?_
    ((hprint.pop.setReg hax).setReg hax)
  rw [digit, if_pos (by omega), Nat.add_comm]

theorem hexChar (L : M.Laws Rep d len room) : Prints M Rep d len M.hexChar 16 := by
  intro c v x ds fs text hx hlen h hprint
  have hax : Reg.ax ≠ .di := nofun
  have hlt := L.byte_lt
  have hpop := L.popReg (r := .ax) h hprint.stack
  rw [Nat.mod_eq_of_lt (by omega)] at hpop
  have hhalf : 2 ^ 8 ≤ 2 ^ (M.bits - 1) :=
    Nat.pow_le_pow_right (by decide) (by have hbits := L.bits.2; omega)
  have hgreater : greater M.bits (M.reg (M.popReg c .ax) .ax) 0x09 = decide (9 < x) := by
    rw [L.reg _ _ .ax hpop, View.reg_setReg, greater_eq (by omega) (by omega)]
  have hround : M.hexChar c = (fun c => M.putNext c (M.reg c .ax % 2 ^ 8))
      (if 9 < x then M.addLow (M.addLow (M.popReg c .ax) .ax (2 ^ 8 - 0x0A)) .ax 0x41
        else M.addLow (M.popReg c .ax) .ax 0x30) := by
    simp only [Mode.hexChar, hgreater, decide_eq_true_eq]
  rw [hround]
  split_ifs with hletter
  · have hsub := L.addLow (r := .ax) (x := 2 ^ 8 - 0x0A) hpop (by rw [View.reg_setReg]; omega)
    rw [View.reg_setReg, show (x + (2 ^ 8 - 0x0A)) % 2 ^ 8 = x - 10 by omega] at hsub
    have hadd := L.addLow (r := .ax) (x := 0x41) hsub (by rw [View.reg_setReg]; omega)
    rw [View.reg_setReg, Nat.mod_eq_of_lt (by omega)] at hadd
    refine L.printed hlen hadd (View.reg_setReg _ _ _) (by omega) ?_
      (((hprint.pop.setReg hax).setReg hax).setReg hax)
    rw [digit, if_neg (by omega), Nat.add_comm]
  · have hadd := L.addLow (r := .ax) (x := 0x30) hpop (by rw [View.reg_setReg]; omega)
    rw [View.reg_setReg, Nat.mod_eq_of_lt (by omega)] at hadd
    refine L.printed hlen hadd (View.reg_setReg _ _ _) (by omega) ?_
      ((hprint.pop.setReg hax).setReg hax)
    rw [digit, if_pos (by omega), Nat.add_comm]

/-- The loop that prints the digits. -/
theorem loopPrints (L : M.Laws Rep d len room) {f : S → S} {base : Nat}
    (hf : Prints M Rep d len f base) {ds : List Nat} {fs : List (Nat × Nat)} {text : List UInt8}
    (hds : ∀ x ∈ ds, x < base) (hne : ds ≠ []) (hlen : text.length + ds.length < len)
    (hcx : v.reg .cx % 2 ^ M.offsetBits = ds.length) (h : Rep c v)
    (hprint : Printing M d ds fs text v) :
    ∃ v', Rep (M.loop f c) v' ∧ Printing M d [] fs (text ++ ds.map digit) v' := by
  have hloop := L.loop (f := f)
    (I := fun j v => Printing M d (ds.drop j) fs (text ++ (ds.take j).map digit) v)
    (List.length_pos_iff.mpr hne) hcx h (by simpa using hprint)
    (fun j v y hI => hI.setReg nofun) ?_
  · obtain ⟨v', h', hI⟩ := hloop
    rw [List.drop_length, List.take_length] at hI
    exact ⟨v', h', hI⟩
  · intro j c v hj h hI
    have hdrop : ds.drop j = ds.get ⟨j, hj⟩ :: ds.drop (j + 1) := List.drop_eq_getElem_cons hj
    rw [hdrop] at hI
    have hshort : (text ++ (ds.take j).map digit).length + 1 < len := by
      rw [List.length_append, List.length_map, List.length_take]
      omega
    obtain ⟨v', h', hI'⟩ := hf c v _ _ fs _ (hds _ (List.get_mem ds ⟨j, hj⟩)) hshort h hI
    refine ⟨v', h', ?_⟩
    rw [← List.take_concat_get' ds j hj, List.map_append, ← List.append_assoc]
    exact hI'

/-- The zeros of the padding. -/
theorem loopPads (L : M.Laws Rep d len room) {m : Nat} {ds : List Nat} {fs : List (Nat × Nat)}
    {text : List UInt8} (hm : 0 < m) (hcx : v.reg .cx % 2 ^ M.offsetBits = m)
    (hlen : text.length + m < len) (h : Rep c v) (hprint : Printing M d ds fs text v) :
    ∃ v', Rep (M.loop (fun c => M.putNext c 0x30) c) v' ∧
      Printing M d ds fs (text ++ List.replicate m 0x30) v' := by
  have hloop := L.loop (f := fun c => M.putNext c 0x30)
    (I := fun j v => Printing M d ds fs (text ++ List.replicate j 0x30) v) hm hcx h
    (by simpa using hprint) (fun j v y hI => hI.setReg nofun) ?_
  · exact hloop
  · intro j c v hj h hI
    have hshort : v.text.length + 1 < len := by
      rw [hI.text, List.length_append, List.length_replicate]
      omega
    obtain ⟨v', h', haligned, hstack, htext, -⟩ := L.putNext (x := 0x30) h hI.aligned hshort
    refine ⟨v', h', haligned, hstack.trans hI.stack, ?_⟩
    rw [htext, hI.text, List.append_assoc, List.replicate_succ']
    rfl

theorem pushWord (L : M.Laws Rep d len room) (h : Rep c v)
    (hroom : M.offsetBits / 8 + Real.bytes v.stack ≤ room) :
    Rep (M.pushWord c r)
      { v with stack := (M.offsetBits / 8, v.reg r % 2 ^ M.offsetBits) :: v.stack } := by
  have hpow : (256 : Nat) ^ (M.offsetBits / 8) = 2 ^ M.offsetBits := by
    rw [show (256 : Nat) = 2 ^ 8 from rfl, ← Nat.pow_mul, Nat.mul_div_cancel' L.offsetBits.1]
  rw [Mode.pushWord, L.word h]
  exact L.push c v _ _ h (by rw [hpow]; exact Nat.mod_lt _ (Nat.two_pow_pos _)) hroom

theorem popWord (L : M.Laws Rep d len room) (h : Rep c v) {fs : List (Nat × Nat)}
    (hstack : v.stack = (M.offsetBits / 8, x) :: fs) :
    ∃ y, Rep (M.popWord c r) (View.setReg { v with stack := fs } r y) ∧
      y % 2 ^ M.offsetBits = x % 2 ^ M.offsetBits := by
  rw [Mode.popWord, L.peek c v _ _ _ h hstack]
  exact L.setWord (L.drop c v _ _ _ h hstack)

/-- The padding, and the number of the digits again in the counter. -/
theorem hexPad (L : M.Laws Rep d len room) {p : Nat} {ds : List Nat} {text : List UInt8}
    (hp : p < 2 ^ (M.offsetBits - 1)) (hds : ds.length < 2 ^ (M.offsetBits - 1))
    (hsi : v.reg .si % 2 ^ M.offsetBits = p) (hcx : v.reg .cx % 2 ^ M.offsetBits = ds.length)
    (hlen : text.length + (p - ds.length) < len)
    (hroom : M.offsetBits / 8 + Real.bytes v.stack ≤ room) (h : Rep c v)
    (hprint : Printing M d ds [] text v) :
    ∃ v', Rep (M.hexPad c) v' ∧
      Printing M d ds [] (text ++ List.replicate (p - ds.length) 0x30) v' ∧
      v'.reg .cx % 2 ^ M.offsetBits = ds.length := by
  have hlt : ds.length < 2 ^ M.offsetBits := Nat.lt_of_lt_of_le hds
    (Nat.pow_le_pow_right (by decide) (Nat.sub_le _ 1))
  have hpush := L.pushWord (r := .cx) h hroom
  rw [hcx] at hpush
  obtain ⟨c₁, hc₁⟩ : ∃ c₁, c₁ = M.pushWord c .cx := ⟨_, rfl⟩
  rw [← hc₁] at hpush
  have hprint₁ : Printing M d [] ((M.offsetBits / 8, ds.length) :: v.stack) text
      { v with stack := (M.offsetBits / 8, ds.length) :: v.stack } :=
    ⟨hprint.aligned, rfl, hprint.text⟩
  have hsi₁ : M.word c₁ .si = p := (L.word hpush).trans hsi
  have hcx₁ : M.word c₁ .cx = ds.length := (L.word hpush).trans hcx
  -- what the counter is restored from, behind the zeros
  have hrestore : ∀ c₂ v₂ zeros, Rep c₂ v₂ →
      Printing M d [] ((M.offsetBits / 8, ds.length) :: v.stack) (text ++ zeros) v₂ →
      ∃ v', Rep (M.popWord c₂ .cx) v' ∧ Printing M d ds [] (text ++ zeros) v' ∧
        v'.reg .cx % 2 ^ M.offsetBits = ds.length := by
    intro c₂ v₂ zeros h₂ hprint₂
    obtain ⟨y, hpop, hy⟩ := L.popWord (r := .cx) h₂ hprint₂.stack
    rw [Nat.mod_eq_of_lt hlt] at hy
    have hprint₃ : Printing M d ds [] (text ++ zeros) { v₂ with stack := v.stack } :=
      ⟨hprint₂.aligned, hprint.stack, hprint₂.text⟩
    exact ⟨_, hpop, hprint₃.setReg nofun, by rw [View.reg_setReg, hy]⟩
  have hgreater : greater M.offsetBits p ds.length = decide (ds.length < p) := greater_eq hp hds
  rw [Mode.hexPad, ← hc₁, hsi₁, hcx₁, hgreater]
  by_cases hlonger : ds.length < p
  · rw [if_pos (decide_eq_true hlonger)]
    obtain ⟨y, hset, hy⟩ := L.setWord (r := .si) (x := p + 2 ^ M.offsetBits - ds.length) hpush
    have hsub : (p + 2 ^ M.offsetBits - ds.length) % 2 ^ M.offsetBits = p - ds.length := by
      rw [show p + 2 ^ M.offsetBits - ds.length = p - ds.length + 2 ^ M.offsetBits by omega,
        Nat.add_mod_right, Nat.mod_eq_of_lt (by omega)]
    obtain ⟨z, hcount, hz⟩ := L.setWord (r := .cx)
      (x := M.word (M.setWord c₁ .si (p + 2 ^ M.offsetBits - ds.length)) .si) hset
    rw [L.word hset, View.reg_setReg, Nat.mod_mod, hy, hsub] at hz
    have hsidi : Reg.si ≠ .di := nofun
    have hcxdi : Reg.cx ≠ .di := nofun
    obtain ⟨v₂, hloop, hprint₂⟩ := L.loopPads (m := p - ds.length) (by omega)
      (by rw [View.reg_setReg, hz]) hlen hcount ((hprint₁.setReg hsidi).setReg hcxdi)
    exact hrestore _ _ _ hloop hprint₂
  · rw [if_neg (by rw [decide_eq_true_iff]; exact hlonger)]
    have hzero : p - ds.length = 0 := by omega
    rw [hzero, List.replicate_zero]
    exact hrestore _ _ _ hpush (by rw [List.append_nil]; exact hprint₁)

/-- The end of the string. -/
theorem terminates (L : M.Laws Rep d len room) {text : List UInt8} (h : Rep c v)
    (hlen : text.length < len) (hprint : Printing M d [] [] text v) :
    ∃ v', Rep (M.put c (M.word c .di) 0) v' ∧ v'.stack = [] ∧ v'.text = text ++ [0] := by
  have hword : M.word c .di = d + v.text.length := (L.word h).trans hprint.aligned
  have hput := L.put c v 0 h (by rw [hprint.text]; exact hlen)
  rw [hword]
  refine ⟨_, hput, hprint.stack, ?_⟩
  rw [← hprint.text]
  rfl

end Mode.Laws

theorem numeral_map (base n : Nat) : (numeral base id n).map digit = numeral base digit n := by
  unfold numeral
  split_ifs
  · rfl
  · rw [List.map_map]
    rfl

theorem length_numeral_le {base n j : Nat} (hbase : 1 < base) (hj : 0 < j) (hn : n < 2 ^ j) :
    (numeral base id n).length ≤ j := by
  unfold numeral
  split_ifs
  · exact hj
  · rw [List.length_map, List.length_reverse, Nat.digits_length_le_iff hbase]
    exact Nat.lt_of_lt_of_le hn (Nat.pow_le_pow_left hbase j)

theorem numeral_ne_nil (base n : Nat) : numeral base id n ≠ [] := by
  unfold numeral
  split_ifs with hzero
  · exact List.cons_ne_nil _ _
  · intro hnil
    have hdigits := List.reverse_eq_nil_iff.mp (List.map_eq_nil_iff.mp hnil)
    exact hzero (Nat.digits_eq_nil_iff_eq_zero.mp hdigits)

theorem bytes_digits (w : Nat) (ds : List Nat) :
    Real.bytes (ds.map fun x => (w, x)) = w * ds.length := by
  induction ds with
  | nil => rfl
  | cons x ds ih =>
    rw [List.map_cons, Real.bytes_cons, ih, List.length_cons, Nat.mul_succ, Nat.add_comm]

/-- The bases that the procedures know. -/
def bases : List Nat := [2, 8, 10, 16]

/-- The digits, with the zeros of the padding, and the end of the string. -/
theorem Mode.Laws.convert {S : Type} {M : Mode S} {Rep : S → View → Prop} {d len room : Nat}
    {c : S} {v : View} (L : M.Laws Rep d len room) {j p : Nat} {start : List UInt8}
    (h : Rep c v) (hprint : Printing M d [] [] start v) (hbase : v.reg .bx ∈ bases)
    (hsi : v.reg .bx = 16 → v.reg .si % 2 ^ M.offsetBits = p) (hp : p < 2 ^ (M.offsetBits - 1))
    (hj : 0 < j) (hax : v.reg .ax < 2 ^ j) (hbits : j ≤ M.bits)
    (hsmall : M.bits < 2 ^ (M.offsetBits - 1)) (hroom : M.bits / 8 * j + M.offsetBits / 8 ≤ room)
    (hlen : start.length + (text (v.reg .bx) p false (v.reg .ax)).length < len) :
    ∃ c' v', (∀ fuel, j ≤ fuel → M.convert fuel c = some c') ∧ Rep c' v' ∧ v'.stack = [] ∧
      v'.text = start ++ text (v.reg .bx) p false (v.reg .ax) ++ [0] := by
  obtain ⟨ds, hds⟩ : ∃ ds, ds = numeral (v.reg .bx) id (v.reg .ax) := ⟨_, rfl⟩
  have hrange : 1 < v.reg .bx ∧ v.reg .bx ≤ 16 ∧ (v.reg .bx ≠ 16 → v.reg .bx ≤ 10) := by
    simp only [bases, List.mem_cons, List.not_mem_nil, or_false] at hbase
    omega
  have hpow : 2 ^ (M.offsetBits - 1) ≤ 2 ^ M.offsetBits :=
    Nat.pow_le_pow_right (by decide) (Nat.sub_le _ 1)
  have hpow' : 2 ^ M.offsetBits ≤ 2 ^ M.bits :=
    Nat.pow_le_pow_right (by decide) L.offsetBits.2.2
  have hlength : ds.length ≤ j := hds ▸ length_numeral_le hrange.1 hj hax
  have hdigits : ∀ x ∈ ds, x < v.reg .bx := by
    intro x hx
    rw [hds] at hx
    obtain ⟨y, hy, rfl⟩ := mem_numeral hrange.1 hx
    exact hy
  have hzero := L.setReg c v .cx 0 h
  rw [Nat.zero_mod] at hzero
  have hkept : ∀ r, r ≠ .cx → (v.setReg .cx 0).reg r = v.reg r :=
    fun r hr => View.reg_setReg_of_ne v hr 0
  obtain ⟨c₁, v₁, hloop, h₁, hstack, htext, hcx, hkeep⟩ := L.divideLoop (j := j)
    hzero (by rw [hkept .bx nofun]; exact hrange.1) hj (by rw [hkept .ax nofun]; exact hax)
    (by rw [View.reg_setReg]; omega)
    (by rw [View.setReg, hprint.stack, List.map_nil, List.append_nil, Real.bytes_nil]; omega)
  rw [hkept .bx nofun, hkept .ax nofun, ← hds] at hstack hcx
  rw [View.reg_setReg, Nat.zero_add] at hcx
  have hprint₁ : Printing M d ds [] start v₁ := by
    refine ⟨?_, ?_, htext.trans hprint.text⟩
    · rw [Aligned, hkeep .di nofun nofun nofun, hkept .di nofun, htext]
      exact hprint.aligned
    · rw [hstack, View.setReg, hprint.stack]
      rfl
  have hbx : M.reg c₁ .bx = v.reg .bx := by
    rw [L.reg c₁ v₁ .bx h₁, hkeep .bx nofun nofun nofun, hkept .bx nofun]
  have hcount : v₁.reg .cx % 2 ^ M.offsetBits = ds.length := by
    rw [hcx, Nat.mod_eq_of_lt (by omega)]
  have hmap : ds.map digit = numeral (v.reg .bx) digit (v.reg .ax) := by
    rw [hds, numeral_map]
  have hne : ds ≠ [] := hds ▸ numeral_ne_nil _ _
  rw [text, ← hmap, List.length_map] at hlen ⊢
  have hconvert : ∀ fuel, j ≤ fuel → M.convert fuel c
      = some (if v.reg .bx = 16 then (fun c => M.put c (M.word c .di) 0) (M.loop M.hexChar (M.hexPad c₁))
        else (fun c => M.put c (M.word c .di) 0) (M.loop M.decChar c₁)) := by
    intro fuel hfuel
    rw [Mode.convert, hloop fuel hfuel, Option.map_some]
    dsimp only
    rw [hbx]
    split_ifs <;> rfl
  by_cases hhex : v.reg .bx = 16
  · rw [if_pos hhex, List.length_append, List.length_append, List.length_replicate,
      List.length_map] at hlen
    simp only [if_pos hhex] at hconvert ⊢
    have hsi₁ : v₁.reg .si % 2 ^ M.offsetBits = p := by
      rw [hkeep .si nofun nofun nofun, hkept .si nofun, hsi hhex]
    have hbytes : M.offsetBits / 8 + Real.bytes v₁.stack ≤ room := by
      have hmul : M.bits / 8 * ds.length ≤ M.bits / 8 * j := Nat.mul_le_mul_left _ hlength
      rw [hprint₁.stack, List.append_nil, bytes_digits]
      omega
    obtain ⟨v₂, h₂, hprint₂, hcount₂⟩ := L.hexPad hp (by omega) hsi₁ hcount
      (by omega) hbytes h₁ hprint₁
    obtain ⟨v₃, h₃, hprint₃⟩ := L.loopPrints (L.hexChar) (fun x hx => by
        have hx := hdigits x hx
        omega) hne (by rw [List.length_append, List.length_replicate]; omega) hcount₂ h₂ hprint₂
    obtain ⟨v₄, h₄, hstack₄, htext₄⟩ := L.terminates h₃
      (by rw [List.length_append, List.length_append, List.length_replicate, List.length_map]
          omega) hprint₃
    refine ⟨_, v₄, hconvert, h₄, hstack₄, ?_⟩
    rw [htext₄, List.append_assoc start]
    rfl
  · rw [if_neg hhex, List.length_map] at hlen
    simp only [if_neg hhex] at hconvert ⊢
    obtain ⟨v₂, h₂, hprint₂⟩ := L.loopPrints (L.decChar (hrange.2.2 hhex)) hdigits hne hlen
      hcount h₁ hprint₁
    obtain ⟨v₃, h₃, hstack₃, htext₃⟩ := L.terminates h₂
      (by rw [List.length_append, List.length_map]; exact hlen) hprint₂
    exact ⟨_, v₃, hconvert, h₃, hstack₃, htext₃⟩

theorem text_append (p n : Nat) (withPrefix : Bool) (base : Nat) :
    text base p withPrefix n
      = (if base = 16 ∧ withPrefix then [0x30, 0x78] else []) ++ text base p false n := by
  unfold text
  by_cases hbase : base = 16
  · cases withPrefix <;> simp [hbase]
  · simp [hbase]

theorem text_ne_nil (base p n : Nat) : text base p false n ≠ [] := by
  have hne : numeral base digit n ≠ [] := by
    rw [← numeral_map]
    exact fun h => numeral_ne_nil base n (List.map_eq_nil_iff.mp h)
  intro h
  unfold text at h
  dsimp only at h
  by_cases hbase : base = 16
  · rw [if_pos hbase] at h
    exact hne (List.append_eq_nil_iff.mp (List.append_eq_nil_iff.mp h).2).2
  · rw [if_neg hbase] at h
    exact hne h

/-- The padding is in `SI`, and the prefix is written. -/
theorem Mode.Laws.prefixHex {S : Type} {M : Mode S} {Rep : S → View → Prop} {d len room : Nat}
    {c : S} {v : View} (L : M.Laws Rep d len room) (h : Rep c v)
    (hdi : v.reg .di % 2 ^ M.offsetBits = d) (hstack : v.stack = []) (htext : v.text = [])
    (hlen : v.reg .dx % 2 ^ M.offsetBits = 1 → 2 < len) :
    ∃ v', Rep (M.prefixHex c) v' ∧
      Printing M d [] [] (if v.reg .dx % 2 ^ M.offsetBits = 1 then [0x30, 0x78] else []) v' ∧
      v'.reg .si % 2 ^ M.offsetBits = v.reg .cx % 2 ^ M.offsetBits ∧ v'.reg .bx = v.reg .bx ∧
      v'.reg .ax = v.reg .ax := by
  have hfits := L.fits
  obtain ⟨y, hset, hy⟩ := L.setWord (r := .si) (x := M.word c .cx) h
  rw [L.word h, Nat.mod_mod] at hy
  obtain ⟨c₁, hc₁⟩ : ∃ c₁, c₁ = M.setWord c .si (M.word c .cx) := ⟨_, rfl⟩
  rw [← hc₁] at hset
  have hdx : M.word c₁ .dx = v.reg .dx % 2 ^ M.offsetBits := (L.word hset).trans rfl
  have hdi₁ : M.word c₁ .di = d := (L.word hset).trans hdi
  have hstack₁ : (v.setReg .si y).stack = [] := hstack
  have htext₁ : (v.setReg .si y).text = [] := htext
  rw [Mode.prefixHex, ← hc₁, hdx]
  by_cases hflag : v.reg .dx % 2 ^ M.offsetBits = 1
  · have hlen := hlen hflag
    rw [if_pos hflag, if_pos hflag, hdi₁]
    have hput := L.put _ _ 0x30 hset (by rw [htext₁, List.length_nil]; omega)
    rw [htext₁, List.length_nil, Nat.add_zero] at hput
    have hdi₂ : M.word (M.put c₁ d 0x30) .di = d := (L.word hput).trans hdi
    have hput₂ := L.put _ _ 0x78 hput (show ([] ++ [UInt8.ofNat 0x30]).length < len by simp; omega)
    have hdi₃ : M.word (M.put (M.put c₁ d 0x30) (d + 1) 0x78) .di = d := (L.word hput₂).trans hdi
    obtain ⟨z, hset₂, hz⟩ := L.setWord (r := .di) (x := d + 2) hput₂
    dsimp only
    rw [hdi₂, hdi₃]
    refine ⟨_, hset₂, ⟨?_, hstack, rfl⟩, hy, rfl, rfl⟩
    rw [Aligned, View.reg_setReg, hz, Nat.mod_eq_of_lt (by omega)]
    rfl
  · rw [if_neg hflag, if_neg hflag]
    refine ⟨_, hset, ⟨?_, hstack₁, htext₁⟩, hy, rfl, rfl⟩
    rw [Aligned, htext₁]
    exact hdi

section

variable {S : Type} {M : Mode S} {Rep : S → View → Prop} {d len room : Nat} {c : S} {v : View}

/-- The procedure, up to its end, for the bases that it knows. -/
theorem numberToString_eq (L : M.Laws Rep d len room) (h : Rep (M.procStart c) v)
    (hstack : v.stack = []) (htext : v.text = []) (hdi : v.reg .di % 2 ^ M.offsetBits = d)
    (hbase : v.reg .bx ∈ bases)
    (hp : v.reg .bx = 16 → v.reg .cx % 2 ^ M.offsetBits < 2 ^ (M.offsetBits - 1))
    (hsmall : M.bits < 2 ^ (M.offsetBits - 1))
    (hroom : M.bits / 8 * M.bits + M.offsetBits / 8 ≤ room)
    (hlen : (text (v.reg .bx) (v.reg .cx % 2 ^ M.offsetBits)
      (v.reg .dx % 2 ^ M.offsetBits = 1) (v.reg .ax)).length < len) :
    ∃ c' v', (∀ fuel, M.bits ≤ fuel → M.numberToString fuel c = some (M.procEnd c')) ∧
      Rep c' v' ∧ v'.stack = [] ∧
      v'.text = text (v.reg .bx) (v.reg .cx % 2 ^ M.offsetBits)
        (v.reg .dx % 2 ^ M.offsetBits = 1) (v.reg .ax) ++ [0] := by
  have hpos : 0 < M.bits := by have hbits := L.bits.2; omega
  have hax := L.lt _ _ .ax h
  rw [text_append, List.length_append] at hlen
  rw [text_append]
  have hstart : ∀ fuel, M.numberToString fuel c
      = if v.reg .bx = 0x10 then
          (M.convert fuel (M.prefixHex (M.procStart c))).map M.procEnd
        else if v.reg .bx = 0x0A ∨ v.reg .bx = 0x08 ∨ v.reg .bx = 0x02 then
          (M.convert fuel (M.procStart c)).map M.procEnd
        else some (M.procEnd (M.procStart c)) := by
    intro fuel
    rw [Mode.numberToString]
    simp only [L.reg _ _ .bx h]
  by_cases hhex : v.reg .bx = 16
  · have hflag : (if v.reg .bx = 16 ∧ decide (v.reg .dx % 2 ^ M.offsetBits = 1) = true
        then ([0x30, 0x78] : List UInt8) else [])
        = if v.reg .dx % 2 ^ M.offsetBits = 1 then [0x30, 0x78] else [] :=
      if_congr (by simp [hhex]) rfl rfl
    rw [hflag] at hlen ⊢
    have hshort : v.reg .dx % 2 ^ M.offsetBits = 1 → 2 < len := by
      intro hdx
      have hne := List.length_pos_iff.mpr (text_ne_nil (v.reg .bx) (v.reg .cx % 2 ^ M.offsetBits)
        (v.reg .ax))
      rw [if_pos hdx] at hlen
      simp only [List.length_cons, List.length_nil] at hlen
      omega
    obtain ⟨v₁, h₁, hprint₁, hsi₁, hbx₁, hax₁⟩ := L.prefixHex h hdi hstack htext hshort
    obtain ⟨c', v', hconvert, h', hstack', htext'⟩ := L.convert h₁ hprint₁
      (by rw [hbx₁]; exact hbase) (fun _ => hsi₁) (hp hhex) hpos (by rw [hax₁]; exact hax)
      (Nat.le_refl _) hsmall hroom (by rw [hbx₁, hax₁]; exact hlen)
    refine ⟨c', v', fun fuel hfuel => ?_, h', hstack', ?_⟩
    · rw [hstart, if_pos hhex, hconvert fuel hfuel]
      rfl
    · rw [htext', hbx₁, hax₁]
  · have hother : v.reg .bx = 0x0A ∨ v.reg .bx = 0x08 ∨ v.reg .bx = 0x02 := by
      simp only [bases, List.mem_cons, List.not_mem_nil, or_false] at hbase
      omega
    have hprint : Mode.Laws.Printing M d [] [] [] v := by
      refine ⟨?_, hstack, htext⟩
      rw [Mode.Laws.Aligned, htext]
      exact hdi
    have hnone : ¬ (v.reg .bx = 16 ∧ decide (v.reg .dx % 2 ^ M.offsetBits = 1) = true) :=
      fun hand => hhex hand.1
    rw [if_neg hnone, List.length_nil, Nat.zero_add] at hlen
    rw [if_neg hnone, List.nil_append]
    have htext₀ : ∀ p, text (v.reg .bx) p false (v.reg .ax)
        = text (v.reg .bx) 0 false (v.reg .ax) := by
      intro p
      rw [text, text, if_neg hhex, if_neg hhex]
    obtain ⟨c', v', hconvert, h', hstack', htext'⟩ := L.convert (p := 0) h hprint
      hbase (fun heq => absurd heq hhex) (Nat.two_pow_pos _) hpos hax (Nat.le_refl _) hsmall
      hroom (by rw [← htext₀, List.length_nil, Nat.zero_add]; exact hlen)
    refine ⟨c', v', fun fuel hfuel => ?_, h', hstack', ?_⟩
    · rw [hstart, if_neg hhex, if_pos hother, hconvert fuel hfuel]
      rfl
    · rw [htext', htext₀ (v.reg .cx % 2 ^ M.offsetBits), List.nil_append]

/-- In another base nothing is written. -/
theorem numberToString_of_not_mem (L : M.Laws Rep d len room) {fuel : Nat}
    (h : Rep (M.procStart c) v) (hbase : v.reg .bx ∉ bases) :
    M.numberToString fuel c = some (M.procEnd (M.procStart c)) := by
  simp only [bases, List.mem_cons, List.not_mem_nil, or_false, not_or] at hbase
  rw [Mode.numberToString]
  simp only [L.reg _ _ .bx h]
  rw [if_neg hbase.2.2.2, if_neg]
  rintro (h10 | h8 | h2)
  · exact hbase.2.2.1 h10
  · exact hbase.2.1 h8
  · exact hbase.1 h2

end

/-! ## The text of a number -/

/-- The value of a digit. -/
def digitValue (c : UInt8) : Nat := if c.toNat < 0x41 then c.toNat - 0x30 else c.toNat - 0x37

theorem digitValue_digit : ∀ k < 16, digitValue (digit k) = k := by decide

theorem digit_ne_zero : ∀ k < 16, digit k ≠ 0 := by decide

/-- The number that a text stands for. -/
def value (base : Nat) (l : List UInt8) : Nat := l.foldl (fun x c => base * x + digitValue c) 0

theorem value_numeral {base : Nat} (hbase : 1 < base) (hle : base ≤ 16) (n : Nat) :
    value base (numeral base digit n) = n := by
  induction n using Nat.strongRecOn with
  | ind n ih =>
    rcases Nat.lt_or_ge n base with hlt | hge
    · rw [numeral_of_lt hlt]
      show base * 0 + digitValue (digit n) = n
      rw [digitValue_digit n (by omega), Nat.mul_zero, Nat.zero_add]
    · rw [numeral_of_le hbase hge, value, List.foldl_append, ← value,
        ih (n / base) (Nat.div_lt_self (by omega) hbase)]
      show base * (n / base) + digitValue (digit (n % base)) = n
      rw [digitValue_digit _ (Nat.lt_of_lt_of_le (Nat.mod_lt n (by omega)) hle), Nat.div_add_mod]

theorem value_replicate (base k : Nat) : value base (List.replicate k 0x30) = 0 := by
  induction k with
  | zero => rfl
  | succ k ih =>
    rw [List.replicate_succ', value, List.foldl_append, ← value, ih]
    rfl

/-- The text determines the number. -/
theorem text_injective {base p n n' : Nat} {withPrefix : Bool} (hbase : base ∈ bases)
    (h : text base p withPrefix n = text base p withPrefix n') : n = n' := by
  have hrange : 1 < base ∧ base ≤ 16 := by
    simp only [bases, List.mem_cons, List.not_mem_nil, or_false] at hbase
    omega
  have hvalue : ∀ m, value base (text base p false m) = m := by
    intro m
    rw [show text base p false m = if base = 16 then
      List.replicate (p - (numeral base digit m).length) 0x30 ++ numeral base digit m
      else numeral base digit m from rfl]
    split_ifs
    · rw [value, List.foldl_append, ← value, value_replicate, ← value,
        value_numeral hrange.1 hrange.2]
    · exact value_numeral hrange.1 hrange.2 m
  rw [text_append, text_append p n'] at h
  rw [← hvalue n, List.append_cancel_left h, hvalue]

/-- A larger number does not have a shorter text. -/
theorem length_text_le {base p n n' : Nat} (h : n ≤ n') :
    (text base p false n).length ≤ (text base p false n').length := by
  have hnumeral : (numeral base digit n).length ≤ (numeral base digit n').length := by
    have hle := Nat.le_length_digits_le base n n' h
    have hpos : n' ≠ 0 → 0 < (Nat.digits base n').length := fun hne =>
      List.length_pos_iff.mpr (Nat.digits_ne_nil_iff_ne_zero.mpr hne)
    unfold numeral
    split_ifs with h0 h0' h0'
    · exact Nat.le_refl _
    · rw [List.length_map, List.length_reverse]
      exact hpos h0'
    · omega
    · rw [List.length_map, List.length_reverse, List.length_map, List.length_reverse]
      exact hle
  have htext : ∀ m, text base p false m = if base = 16 then
      List.replicate (p - (numeral base digit m).length) 0x30 ++ numeral base digit m
      else numeral base digit m := fun m => rfl
  rw [htext, htext]
  split_ifs
  · rw [List.length_append, List.length_append, List.length_replicate, List.length_replicate]
    omega
  · exact hnumeral

/-- There is no end of the string in the text. -/
theorem zero_not_mem_text {base p n : Nat} {withPrefix : Bool} (hbase : base ∈ bases) :
    0 ∉ text base p withPrefix n := by
  have hrange : 1 < base ∧ base ≤ 16 := by
    simp only [bases, List.mem_cons, List.not_mem_nil, or_false] at hbase
    omega
  have hdigits : 0 ∉ numeral base digit n := by
    intro hmem
    obtain ⟨k, hk, hzero⟩ := mem_numeral hrange.1 hmem
    exact digit_ne_zero k (by omega) hzero.symm
  unfold text
  dsimp only
  split_ifs <;> simp [hdigits, List.mem_replicate]

end NumberToString

end Xeos.Boot
