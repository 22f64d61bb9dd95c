import Mathlib.Tactic.Ring

/-!
# A flat byte memory

`Memory` maps every address to one byte.  Addresses are natural numbers, so
the operations below never wrap; a client that computes addresses in machine
words reduces them before it comes here.

There are four operations: `set` writes one byte, `fill` writes one byte value
over a range, `store` writes a little-endian word and `copy` writes the bytes of
a range of another memory.  Each is an `if` on the address, so the frame of an
operation is the `else` branch.  `load` reads a little-endian word, and
`store_load` says that storing a loaded word is the same as copying its bytes.
-/

namespace Lib

/-- A flat byte memory: every address holds one byte. -/
abbrev Memory := Nat → UInt8

namespace Memory

/-- Write the byte `v` at `a`. -/
def set (m : Memory) (a : Nat) (v : UInt8) : Memory :=
  fun b => if b = a then v else m b

/-- Write the byte `v` over the `n` addresses from `a`. -/
def fill (m : Memory) (a n : Nat) (v : UInt8) : Memory :=
  fun b => if a ≤ b ∧ b < a + n then v else m b

/-- The little-endian word in the `n` bytes from `a`. -/
def load (m : Memory) : Nat → Nat → Nat
  | _, 0 => 0
  | a, n + 1 => (m a).toNat + 256 * load m (a + 1) n

/-- Write the low `n` bytes of `v` from `a`, lowest byte first. -/
def store (m : Memory) (a n v : Nat) : Memory :=
  fun b => if a ≤ b ∧ b < a + n then UInt8.ofNat (v / 256 ^ (b - a)) else m b

/-- Write over the `n` bytes from `d` the `n` bytes that `src` has from `s`. -/
def copy (m src : Memory) (d s n : Nat) : Memory :=
  fun b => if d ≤ b ∧ b < d + n then src (s + (b - d)) else m b

/-! ## What an operation does not touch -/

@[simp]
theorem set_same (m : Memory) (a : Nat) (v : UInt8) : m.set a v a = v := by
  simp [set]

theorem set_of_ne (m : Memory) {a b : Nat} (v : UInt8) (h : b ≠ a) :
    m.set a v b = m b := by
  simp [set, h]

theorem fill_of_mem (m : Memory) {a n b : Nat} (v : UInt8) (h : a ≤ b ∧ b < a + n) :
    m.fill a n v b = v := by
  simp [fill, h]

theorem fill_of_not_mem (m : Memory) {a n b : Nat} (v : UInt8)
    (h : b < a ∨ a + n ≤ b) : m.fill a n v b = m b := by
  have hb : ¬(a ≤ b ∧ b < a + n) := by omega
  simp [fill, hb]

theorem store_of_not_mem (m : Memory) {a n b : Nat} (v : Nat)
    (h : b < a ∨ a + n ≤ b) : m.store a n v b = m b := by
  have hb : ¬(a ≤ b ∧ b < a + n) := by omega
  simp [store, hb]

theorem copy_of_mem (m src : Memory) {d s n b : Nat} (h : d ≤ b ∧ b < d + n) :
    m.copy src d s n b = src (s + (b - d)) := by
  simp [copy, h]

theorem copy_of_not_mem (m src : Memory) {d s n b : Nat}
    (h : b < d ∨ d + n ≤ b) : m.copy src d s n b = m b := by
  have hb : ¬(d ≤ b ∧ b < d + n) := by omega
  simp [copy, hb]

/-! ## Words -/

@[simp]
theorem load_zero (m : Memory) (a : Nat) : load m a 0 = 0 := rfl

theorem load_succ (m : Memory) (a n : Nat) :
    load m a (n + 1) = (m a).toNat + 256 * load m (a + 1) n := rfl

/-- A loaded word depends on its bytes only. -/
theorem load_congr {m m' : Memory} {a a' : Nat} :
    ∀ {n : Nat}, (∀ i, i < n → m (a + i) = m' (a' + i)) →
      load m a n = load m' a' n := by
  intro n
  induction n generalizing a a' with
  | zero => intro _; rfl
  | succ n ih =>
    intro h
    have hhead : m a = m' a' := by simpa using h 0 (Nat.succ_pos n)
    have htail : load m (a + 1) n = load m' (a' + 1) n := by
      apply ih
      intro i hi
      have := h (i + 1) (by omega)
      rw [show a + 1 + i = a + (i + 1) by omega,
        show a' + 1 + i = a' + (i + 1) by omega]
      exact this
    rw [load_succ, load_succ, hhead, htail]

theorem load_one (m : Memory) (a : Nat) : load m a 1 = (m a).toNat := by
  rw [load_succ, load_zero]
  omega

theorem load_lt (m : Memory) (a n : Nat) : load m a n < 256 ^ n := by
  induction n generalizing a with
  | zero => simp
  | succ n ih =>
    have hb : (m a).toNat < 256 := (m a).toNat_lt
    have hr := ih (a + 1)
    rw [load_succ, pow_succ]
    omega

/-- The byte number `i` of a loaded word is the byte at offset `i`. -/
theorem load_byte (m : Memory) {a n i : Nat} (hi : i < n) :
    UInt8.ofNat (load m a n / 256 ^ i) = m (a + i) := by
  induction n generalizing a i with
  | zero => omega
  | succ n ih =>
    have hb : (m a).toNat < 256 := (m a).toNat_lt
    cases i with
    | zero =>
      apply UInt8.toNat_inj.mp
      rw [UInt8.toNat_ofNat', load_succ]
      simp only [pow_zero, Nat.div_one, Nat.add_zero]
      omega
    | succ i =>
      have hshift : load m a (n + 1) / 256 ^ (i + 1) = load m (a + 1) n / 256 ^ i := by
        rw [pow_succ', ← Nat.div_div_eq_div_mul, load_succ]
        congr 1
        omega
      rw [hshift, ih (by omega)]
      congr 1
      omega

/-- Reading back the bytes a store wrote. -/
theorem load_store (m : Memory) (a n v : Nat) : load (store m a n v) a n = v % 256 ^ n := by
  induction n generalizing a v with
  | zero => simp [Nat.mod_one]
  | succ n ih =>
    have hhead : store m a (n + 1) v a = UInt8.ofNat v := by simp [store]
    have htail : load (store m a (n + 1) v) (a + 1) n
        = load (store m (a + 1) n (v / 256)) (a + 1) n := by
      apply load_congr
      intro i hi
      have h1 : a ≤ a + 1 + i ∧ a + 1 + i < a + (n + 1) := by omega
      have h2 : a + 1 ≤ a + 1 + i ∧ a + 1 + i < a + 1 + n := by omega
      simp only [store, h1, h2, and_self, if_true]
      rw [show a + 1 + i - a = i + 1 by omega, show a + 1 + i - (a + 1) = i by omega,
        pow_succ', ← Nat.div_div_eq_div_mul]
    have hmod : v % 256 ^ (n + 1) = v % 256 + 256 * (v / 256 % 256 ^ n) := by
      rw [pow_succ', Nat.mod_mul]
    rw [load_succ, hhead, htail, ih, UInt8.toNat_ofNat', hmod]

/-- A store changes no word outside its own bytes. -/
theorem load_store_of_disjoint (m : Memory) {a n b k : Nat} (v : Nat)
    (h : b + k ≤ a ∨ a + n ≤ b) : load (store m a n v) b k = load m b k := by
  apply load_congr
  intro i hi
  exact store_of_not_mem m v (by omega)

theorem load_set_of_not_mem (m : Memory) {a b k : Nat} (v : UInt8)
    (h : a < b ∨ b + k ≤ a) : load (set m a v) b k = load m b k := by
  apply load_congr
  intro i hi
  exact set_of_ne m v (by omega)

theorem load_fill_of_disjoint (m : Memory) {a n b k : Nat} (v : UInt8)
    (h : b + k ≤ a ∨ a + n ≤ b) : load (fill m a n v) b k = load m b k := by
  apply load_congr
  intro i hi
  exact fill_of_not_mem m v (by omega)

theorem load_eq_zero (m : Memory) {a n : Nat} (h : ∀ i, i < n → m (a + i) = 0) :
    load m a n = 0 := by
  induction n generalizing a with
  | zero => rfl
  | succ n ih =>
    have hhead : m a = 0 := by simpa using h 0 (Nat.succ_pos n)
    have htail : load m (a + 1) n = 0 := by
      apply ih
      intro i hi
      have := h (i + 1) (by omega)
      rwa [show a + (i + 1) = a + 1 + i by omega] at this
    rw [load_succ, hhead, htail]
    rfl

/-- A word is its low bytes and its high bytes. -/
theorem load_append (m : Memory) (a p q : Nat) :
    load m a (p + q) = load m a p + 256 ^ p * load m (a + p) q := by
  induction p generalizing a with
  | zero => simp
  | succ p ih =>
    rw [show p + 1 + q = (p + q) + 1 by omega, load_succ, load_succ, ih,
      show a + 1 + p = a + (p + 1) by omega]
    ring

theorem load_mod (m : Memory) (a p q : Nat) : load m a (p + q) % 256 ^ p = load m a p := by
  rw [load_append, Nat.add_mul_mod_self_left, Nat.mod_eq_of_lt (load_lt m a p)]

theorem load_div (m : Memory) (a p q : Nat) :
    load m a (p + q) / 256 ^ p = load m (a + p) q := by
  have hpos : 0 < 256 ^ p := Nat.pow_pos (by omega)
  rw [load_append, Nat.add_mul_div_left _ _ hpos, Nat.div_eq_of_lt (load_lt m a p), Nat.zero_add]

/-- A store of a word in two parts. -/
theorem store_append (m : Memory) (a p q : Nat) {x : Nat} (y : Nat) (hx : x < 256 ^ p) :
    store m a (p + q) (x + 256 ^ p * y) = store (store m a p x) (a + p) q y := by
  have hpos : 0 < 256 ^ p := Nat.pow_pos (by omega)
  funext b
  by_cases hlow : a ≤ b ∧ b < a + p
  · have hall : a ≤ b ∧ b < a + (p + q) := by omega
    have hhigh : ¬(a + p ≤ b ∧ b < a + p + q) := by omega
    have hle : b - a < p := by omega
    simp only [store, hlow, hall, hhigh, and_self, if_true, if_false]
    have hdiv : (x + 256 ^ p * y) / 256 ^ (b - a)
        = x / 256 ^ (b - a) + 256 * (256 ^ (p - (b - a) - 1) * y) := by
      have hpow : 256 ^ p * y = 256 ^ (b - a) * (256 * (256 ^ (p - (b - a) - 1) * y)) := by
        conv_lhs => rw [show p = (b - a) + (1 + (p - (b - a) - 1)) by omega]
        rw [pow_add, pow_add, pow_one]
        ring
      rw [hpow, Nat.add_mul_div_left _ _ (Nat.pow_pos (by omega))]
    rw [hdiv]
    apply UInt8.toNat_inj.mp
    rw [UInt8.toNat_ofNat', UInt8.toNat_ofNat', Nat.add_mul_mod_self_left]
  · by_cases hhigh : a + p ≤ b ∧ b < a + p + q
    · have hall : a ≤ b ∧ b < a + (p + q) := by omega
      simp only [store, hhigh, hall, and_self, if_true]
      have hdiv : (x + 256 ^ p * y) / 256 ^ (b - a) = y / 256 ^ (b - (a + p)) := by
        rw [show b - a = p + (b - (a + p)) by omega, pow_add, ← Nat.div_div_eq_div_mul,
          Nat.add_mul_div_left _ _ hpos, Nat.div_eq_of_lt hx, Nat.zero_add]
      rw [hdiv]
    · have hall : ¬(a ≤ b ∧ b < a + (p + q)) := by omega
      simp only [store, hlow, hhigh, hall, if_false]

/-! ## Filling -/

theorem fill_zero (m : Memory) (a : Nat) (v : UInt8) : m.fill a 0 v = m := by
  funext b
  exact fill_of_not_mem m v (by omega)

theorem set_eq_fill (m : Memory) (a : Nat) (v : UInt8) : m.set a v = m.fill a 1 v := by
  funext b
  by_cases hb : b = a
  · rw [hb, set_same, fill_of_mem _ _ (by omega)]
  · rw [set_of_ne _ _ hb, fill_of_not_mem _ _ (by omega)]

theorem fill_fill (m : Memory) {a b n k : Nat} (v : UInt8) (hb : b = a + k) :
    (m.fill a k v).fill b n v = m.fill a (k + n) v := by
  subst hb
  funext b
  by_cases hlow : a ≤ b ∧ b < a + k
  · rw [fill_of_not_mem _ _ (by omega), fill_of_mem _ _ hlow, fill_of_mem _ _ (by omega)]
  · by_cases hhigh : a + k ≤ b ∧ b < a + k + n
    · rw [fill_of_mem _ _ hhigh, fill_of_mem _ _ (by omega)]
    · rw [fill_of_not_mem _ _ (by omega), fill_of_not_mem _ _ (by omega),
        fill_of_not_mem _ _ (by omega)]

/-! ## Copies -/

/-- A copy depends only on the bytes that it reads. -/
theorem copy_congr {m src src' : Memory} {d s s' n : Nat}
    (h : ∀ i, i < n → src (s + i) = src' (s' + i)) :
    copy m src d s n = copy m src' d s' n := by
  funext b
  by_cases hb : d ≤ b ∧ b < d + n
  · simp only [copy, hb, and_self, if_true]
    exact h (b - d) (by omega)
  · simp only [copy, hb, if_false]

/-- A copy changes nothing exactly when the bytes are equal already. -/
theorem copy_self_iff (m : Memory) (d s n : Nat) :
    copy m m d s n = m ↔ ∀ i, i < n → m (d + i) = m (s + i) := by
  constructor
  · intro h i hi
    have hbyte := congrFun h (d + i)
    rw [copy_of_mem m m (by omega), Nat.add_sub_cancel_left] at hbyte
    exact hbyte.symm
  · intro h
    funext b
    by_cases hb : d ≤ b ∧ b < d + n
    · have hbyte := h (b - d) (by omega)
      rw [show d + (b - d) = b by omega] at hbyte
      rw [copy_of_mem m m hb, hbyte]
    · exact copy_of_not_mem m m (by omega)

/-- Storing a word that was loaded copies its bytes. -/
theorem store_load (m src : Memory) (d s n : Nat) :
    store m d n (load src s n) = copy m src d s n := by
  funext b
  by_cases hb : d ≤ b ∧ b < d + n
  · simp only [store, copy, hb, and_self, if_true]
    exact load_byte src (by omega)
  · simp only [store, copy, hb, if_false]

/-- A store depends on the low bytes of its value only. -/
theorem store_congr_mod (m : Memory) (a n : Nat) {v v' : Nat} (h : v % 256 ^ n = v' % 256 ^ n) :
    store m a n v = store m a n v' := by
  have hmod : ∀ w, store m a n (w % 256 ^ n) = store m a n w := by
    intro w
    rw [← load_store m a n w, store_load]
    funext b
    by_cases hb : a ≤ b ∧ b < a + n
    · rw [copy_of_mem m _ hb, show a + (b - a) = b by omega]
    · rw [copy_of_not_mem m _ (by omega), store_of_not_mem m _ (by omega)]
  rw [← hmod v, h, hmod v']

/-- Setting one byte that was read copies it. -/
theorem set_eq_copy (m src : Memory) (d s : Nat) : set m d (src s) = copy m src d s 1 := by
  funext b
  by_cases hb : b = d
  · subst hb
    simp [set, copy]
  · have hn : ¬(d ≤ b ∧ b < d + 1) := by omega
    simp only [set, copy, hb, hn, if_false]

@[simp]
theorem copy_zero (m src : Memory) (d s : Nat) : copy m src d s 0 = m := by
  funext b
  have hn : ¬(d ≤ b ∧ b < d + 0) := by omega
  simp only [copy, hn, if_false]

/-- Two copies of adjacent ranges are one copy. -/
theorem copy_append (m src : Memory) (d s n k : Nat) :
    copy (copy m src d s n) src (d + n) (s + n) k = copy m src d s (n + k) := by
  funext b
  by_cases h1 : d + n ≤ b ∧ b < d + n + k
  · have h2 : d ≤ b ∧ b < d + (n + k) := by omega
    simp only [copy, h1, h2, and_self, if_true]
    congr 1
    omega
  · by_cases h2 : d ≤ b ∧ b < d + n
    · have h3 : d ≤ b ∧ b < d + (n + k) := by omega
      simp only [copy, h1, h2, h3, and_self, if_true, if_false]
    · have h3 : ¬(d ≤ b ∧ b < d + (n + k)) := by omega
      simp only [copy, h1, h2, h3, if_false]

/-- A copy keeps the words outside its target. -/
theorem load_copy_of_disjoint (m src : Memory) {d s n b k : Nat}
    (h : b + k ≤ d ∨ d + n ≤ b) : load (copy m src d s n) b k = load m b k := by
  apply load_congr
  intro i hi
  exact copy_of_not_mem m src (by omega)

/-- One word of a forward copy of a memory onto itself.  The source range
`[s, s + n)` is apart from the target range `[d, d + n)`, so the word that is
read is still the word of the memory the copy started from. -/
theorem store_load_copy (m : Memory) {d s n i j w : Nat}
    (hapart : d + n ≤ s ∨ s + n ≤ d) (hi : i + w ≤ n) (hj : j ≤ n) :
    store (copy m m d s i) (d + i) w (load (copy m m d s j) (s + i) w)
      = copy m m d s (i + w) := by
  have hsrc : load (copy m m d s j) (s + i) w = load m (s + i) w :=
    load_copy_of_disjoint m m (by omega)
  rw [hsrc, store_load, copy_append]

end Memory

end Lib
