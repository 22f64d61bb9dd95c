import Xeos.Video.PrintfScan

/-!
# Formats one after the other

What the engine does with `f ++ g` is what it does with `f`, and then what it does with `g`
and the arguments that `f` leaves.  `composes_iff` says that this holds for every format
that the engine gets through, and for no other.
-/

namespace Xeos.Video.Printf

open Lib

/-! ## What the composition of two calls is -/

/-- `f ++ g` -/
def CString.append (f g : CString) : CString :=
  ⟨f.val ++ g.val, fun h => (List.mem_append.mp h).elim f.property g.property⟩

/-- The first `k` arguments of `a`, and those of `b` behind them. -/
def Args.append (k : Nat) (a b : Args) : Args where
  int i := if i < k then a.int i else b.int (i - k)
  longLong i := if i < k then a.longLong i else b.longLong (i - k)
  pointer i := if i < k then a.pointer i else b.pointer (i - k)
  string i := if i < k then a.string i else b.string (i - k)

/-- The arguments from the `k`th on. -/
def Args.drop (k : Nat) (a : Args) : Args where
  int i := a.int (k + i)
  longLong i := a.longLong (k + i)
  pointer i := a.pointer (k + i)
  string i := a.string (k + i)

def Config.withArgs (cfg : Config) (args : Args) : Config := { cfg with args := args }

/-- The event of a call that `count` characters come before. -/
def Event.after (count : Int32) : Event → Event
  | .char c => .char c
  | .store p n => .store p (count + n)

/-- The result of a call that the events `out` with `count` characters come before. -/
def Result.after (count : Int32) (out : List Event) : Result → Result
  | .returned n o => .returned (count + n) (out ++ o.map (Event.after count))
  | .overread => .overread
  | .overflow => .overflow

/-- The call comes to the end of its format, after `count` characters, `k` arguments and the
events `out`. -/
def Finishes (cfg : Config) (format : CString) (count : Int32) (k : Nat) (out : List Event) : Prop :=
  Visits (step cfg) (start format) (.outer ⟨.inside [], count, k, out⟩)

/-- The call gets through `f`, and the results for `f` and any other format `g` with
arguments of its own are those for `g`, after what it does with `f`. -/
def Composes (cfg : Config) (f : CString) : Prop :=
  ∃ count k out, Finishes cfg f count k out ∧ ∀ (g : CString) (args : Args) (r : Result),
    ProcessFormatString (cfg.withArgs (cfg.args.append k args)) (f.append g) r ↔
      ∃ r', ProcessFormatString (cfg.withArgs args) g r' ∧ r = r'.after count out

/-! ## The second format -/

section After

variable (cfg : Config) (count : Int32) (k : Nat) (out : List Event) (args : Args)

/-- The engine with `count` characters, `k` arguments and the events `out` before it. -/
def Engine.after (s : Engine) : Engine :=
  { s with
    count := count + s.count
    ap := k + s.ap
    out := out ++ s.out.map (Event.after count) }

def Phase.after : Phase → Phase
  | .outer s => .outer (s.after count k out)
  | .inner d s => .inner d (s.after count k out)
  | .string d len bytes s => .string d len bytes (s.after count k out)

/-- The call with the arguments of both formats, and the call for the second format. -/
abbrev Config.both : Config := cfg.withArgs (cfg.args.append k args)

theorem both_int (i : Nat) : (cfg.both k args).args.int (k + i) = args.int i := by
  simp [Config.both, Config.withArgs, Args.append, show ¬ k + i < k by omega]

theorem both_longLong (i : Nat) : (cfg.both k args).args.longLong (k + i) = args.longLong i := by
  simp [Config.both, Config.withArgs, Args.append, show ¬ k + i < k by omega]

theorem both_pointer (i : Nat) : (cfg.both k args).args.pointer (k + i) = args.pointer i := by
  simp [Config.both, Config.withArgs, Args.append, show ¬ k + i < k by omega]

theorem both_string (i : Nat) : (cfg.both k args).args.string (k + i) = args.string i := by
  simp [Config.both, Config.withArgs, Args.append, show ¬ k + i < k by omega]

variable (s : Engine) (d : Directive)

theorem put_after (c : UInt8) :
    (s.after count k out).put (cfg.both k args) c
      = (s.put (cfg.withArgs args) c).after count k out := by
  have hhandler : (cfg.both k args).handler = (cfg.withArgs args).handler := rfl
  unfold Engine.put Engine.after
  rw [hhandler]
  cases (cfg.withArgs args).handler with
  | true => simp [Int32.add_assoc, Event.after]
  | false => simp [Int32.add_assoc]

theorem puts_after (cs : List UInt8) :
    (s.after count k out).puts (cfg.both k args) cs
      = (s.puts (cfg.withArgs args) cs).after count k out := by
  induction cs generalizing s with
  | nil => rfl
  | cons c cs ih =>
    show ((s.after count k out).put (cfg.both k args) c).puts (cfg.both k args) cs
      = ((s.put (cfg.withArgs args) c).puts (cfg.withArgs args) cs).after count k out
    rw [put_after, ih]

theorem fetch_after (t ap : Nat) :
    fetch (cfg.both k args) d t (k + ap) = fetch (cfg.withArgs args) d t ap := by
  unfold fetch
  rw [both_int, both_longLong, both_pointer]
  rfl

theorem convertChar_after :
    convertChar (cfg.both k args) d (s.after count k out)
      = (convertChar (cfg.withArgs args) d s).after count k out := by
  have hap : { s.after count k out with ap := (s.after count k out).ap + 1 }
      = Engine.after count k out { s with ap := s.ap + 1 } := by
    simp only [Engine.after, Nat.add_assoc]
  have hformat : ∀ t : Engine, { t.after count k out with format := (t.after count k out).format.next }
      = Engine.after count k out { t with format := t.format.next } := fun _ => rfl
  have harg : (cfg.both k args).args.int (s.after count k out).ap
      = (cfg.withArgs args).args.int s.ap := both_int cfg k args s.ap
  unfold convertChar
  dsimp only
  rw [harg, hap]
  cases d.align <;> simp only [puts_after, put_after, hformat, Bool.false_eq_true, if_false,
    if_true, reduceCtorEq]

theorem putSign_after (v : Number) :
    putSign (cfg.both k args) d v (s.after count k out)
      = ((putSign (cfg.withArgs args) d v s).1, (putSign (cfg.withArgs args) d v s).2.after count k out) := by
  unfold putSign
  simp only [put_after]
  split_ifs <;> rfl

theorem putSharp_after (v : Number) (n : UInt64) :
    putSharp (cfg.both k args) v n (s.after count k out)
      = (putSharp (cfg.withArgs args) v n s).after count k out := by
  unfold putSharp
  simp only [put_after, puts_after]
  split
  · split_ifs <;> rfl
  · split_ifs <;> rfl
  · rfl

theorem convertInteger_after (c : UInt8) :
    convertInteger (cfg.both k args) c d (s.after count k out)
      = (convertInteger (cfg.withArgs args) c d s).map (Engine.after count k out) := by
  have hap : { s.after count k out with ap := (s.after count k out).ap + 1 }
      = Engine.after count k out { s with ap := s.ap + 1 } := by
    simp only [Engine.after, Nat.add_assoc]
  have hfetch : fetch (cfg.both k args) d (normalizeType (typeBits c)) (s.after count k out).ap
      = fetch (cfg.withArgs args) d (normalizeType (typeBits c)) s.ap :=
    fetch_after cfg k args d _ s.ap
  unfold convertInteger
  dsimp only
  rw [hfetch, hap, putSign_after]
  dsimp only
  rw [putSharp_after, puts_after]
  split_ifs <;> rfl

theorem startString_after :
    startString (cfg.both k args) d (s.after count k out)
      = (startString (cfg.withArgs args) d s).after count k out := by
  have hap : { s.after count k out with ap := (s.after count k out).ap + 1 }
      = Engine.after count k out { s with ap := s.ap + 1 } := by
    simp only [Engine.after, Nat.add_assoc]
  have harg : (cfg.both k args).args.string (s.after count k out).ap
      = (cfg.withArgs args).args.string s.ap := both_string cfg k args s.ap
  have hwidth : widthSize (cfg.both k args) d = widthSize (cfg.withArgs args) d := rfl
  unfold startString
  dsimp only
  rw [harg, hap, hwidth, puts_after]
  split_ifs <;> rfl

theorem endString_after (len : Nat) :
    endString (cfg.both k args) d len (s.after count k out)
      = (endString (cfg.withArgs args) d len s).after count k out := by
  have hwidth : widthSize (cfg.both k args) d = widthSize (cfg.withArgs args) d := rfl
  unfold endString
  rw [hwidth, puts_after]
  dsimp only
  split_ifs <;> rfl

theorem stepPrecision_after :
    stepPrecision (cfg.both k args) d (s.after count k out)
      = (stepPrecision (cfg.withArgs args) d s).after count k out := by
  have harg : (cfg.both k args).args.int (s.after count k out).ap
      = (cfg.withArgs args).args.int s.ap := both_int cfg k args s.ap
  unfold stepPrecision
  dsimp only [Engine.after] at harg ⊢
  rw [harg]
  split
  · split_ifs <;> rfl
  · rfl

theorem stepInner_after (c : UInt8) :
    stepInner (cfg.both k args) c d (s.after count k out)
      = (stepInner (cfg.withArgs args) c d s).map (Phase.after count k out)
        (Result.after count out) := by
  have harg : (cfg.both k args).args.int (s.after count k out).ap
      = (cfg.withArgs args).args.int s.ap := both_int cfg k args s.ap
  have hpointer : (cfg.both k args).args.pointer (s.after count k out).ap
      = (cfg.withArgs args).args.pointer s.ap := both_pointer cfg k args s.ap
  unfold stepInner
  cases classify c with
  | number =>
    dsimp only
    rw [hpointer]
    simp [Engine.after, Phase.after, Event.after, Nat.add_assoc]
  | digit =>
    dsimp only [Engine.after]
    cases s.format <;> rfl
  | star =>
    dsimp only
    rw [harg]
    rfl
  | period =>
    dsimp only
    rw [stepPrecision_after]
    rfl
  | char =>
    dsimp only
    rw [convertChar_after]
    rfl
  | string =>
    dsimp only
    rw [startString_after]
    rfl
  | integer =>
    dsimp only
    rw [convertInteger_after]
    cases convertInteger (cfg.withArgs args) c d s <;> rfl
  | _ => rfl

/-- The engine does the same behind another format. -/
theorem step_after (φ : Phase) :
    step (cfg.both k args) (φ.after count k out)
      = (step (cfg.withArgs args) φ).map (Phase.after count k out) (Result.after count out) := by
  cases φ with
  | outer s =>
    show step (cfg.both k args) (.outer (s.after count k out)) = _
    unfold step
    dsimp only [Engine.after]
    cases s.format.read with
    | none => rfl
    | some c =>
      dsimp only
      split_ifs
      · rfl
      · exact congrArg (fun t : Engine => Sum.inl (Phase.outer { t with format := s.format.next }))
          (put_after cfg count k out args s c)
      · exact congrArg (fun t : Engine => Sum.inl (Phase.outer { t with format := s.format.next.next }))
          (put_after cfg count k out args { s with format := s.format.next } 0x25)
      · rfl
  | inner d s =>
    show step (cfg.both k args) (.inner d (s.after count k out)) = _
    unfold step
    dsimp only [Engine.after]
    cases s.format.read with
    | none => rfl
    | some c => exact stepInner_after cfg count k out args s d c
  | string d len bytes s =>
    show step (cfg.both k args) (.string d len bytes (s.after count k out)) = _
    have hhandler : (cfg.both k args).handler = (cfg.withArgs args).handler := rfl
    unfold step
    dsimp only
    cases bytes with
    | nil =>
      dsimp only
      rw [endString_after]
      rfl
    | cons c rest =>
      dsimp only
      rw [put_after, hhandler]
      split_ifs <;> rfl

/-- The results behind another format. -/
theorem returns_after_iff (g : CString) (r : Result) :
    Returns (step (cfg.both k args)) (.outer ⟨.inside g.val, count, k, out⟩) r ↔
      ∃ r', ProcessFormatString (cfg.withArgs args) g r' ∧ r = r'.after count out := by
  have hstart : (Phase.outer ⟨.inside g.val, count, k, out⟩) = (start g).after count k out := by
    simp [start, Phase.after, Engine.after]
  rw [hstart]
  exact returns_map_iff (step_after cfg count k out args)

end After

/-! ## The first format -/

section Before

/-- More text at the end of the format. -/
def Cursor.extend (g : List UInt8) : Cursor → Cursor
  | .inside rest => .inside (rest ++ g)
  | .past => .past

def Engine.extend (g : List UInt8) (s : Engine) : Engine := { s with format := s.format.extend g }

def Phase.extend (g : List UInt8) : Phase → Phase
  | .outer s => .outer (s.extend g)
  | .inner d s => .inner d (s.extend g)
  | .string d len bytes s => .string d len bytes (s.extend g)

def Phase.engine : Phase → Engine
  | .outer s | .inner _ s | .string _ _ _ s => s

/-- The engine has not come to the end of the format in a directive, nor behind the end. -/
def Phase.Inside : Phase → Prop
  | .outer s | .string _ _ _ s => s.format ≠ .past
  | .inner _ s => s.format ≠ .past ∧ s.format ≠ .inside []

variable {cfg : Config} {g : List UInt8} {cur : Cursor} {s : Engine} {d : Directive}

theorem Cursor.next_extend (h : cur.next ≠ .past) :
    (cur.extend g).next = cur.next.extend g ∧ (cur.extend g).read = cur.read := by
  cases cur with
  | past => exact absurd rfl h
  | inside rest =>
    cases rest with
    | nil => exact absurd rfl h
    | cons c rest => exact ⟨rfl, rfl⟩

/-- A run of digits that the text goes on after. -/
theorem digits_extend {l : List UInt8} (h : l.dropWhile isdigit ≠ []) :
    (l ++ g).dropWhile isdigit = l.dropWhile isdigit ++ g ∧ atoi (l ++ g) = atoi l := by
  have htake : (l ++ g).dropWhile isdigit = l.dropWhile isdigit ++ g ∧
      (l ++ g).takeWhile isdigit = l.takeWhile isdigit := by
    induction l with
    | nil => exact absurd rfl h
    | cons c l ih =>
      rw [List.cons_append, List.dropWhile_cons, List.takeWhile_cons, List.dropWhile_cons,
        List.takeWhile_cons]
      cases hc : isdigit c with
      | false => exact ⟨rfl, rfl⟩
      | true =>
        rw [List.dropWhile_cons, hc, if_pos rfl] at h
        obtain ⟨hdrop, htake⟩ := ih h
        rw [if_pos rfl, if_pos rfl, if_pos rfl, if_pos rfl, hdrop, htake]
        exact ⟨rfl, rfl⟩
  refine ⟨htake.1, ?_⟩
  unfold atoi
  rw [htake.2]

variable (cfg) (k : Nat) (args : Args)

section Args

variable {i : Nat} (hi : i < k)
include hi

theorem both_int_of_lt : (cfg.both k args).args.int i = cfg.args.int i := if_pos hi

theorem both_longLong_of_lt : (cfg.both k args).args.longLong i = cfg.args.longLong i := if_pos hi

theorem both_pointer_of_lt : (cfg.both k args).args.pointer i = cfg.args.pointer i := if_pos hi

theorem both_string_of_lt : (cfg.both k args).args.string i = cfg.args.string i := if_pos hi

theorem fetch_of_lt (d : Directive) (t : Nat) : fetch (cfg.both k args) d t i = fetch cfg d t i := by
  unfold fetch
  rw [both_int_of_lt cfg k args hi, both_longLong_of_lt cfg k args hi,
    both_pointer_of_lt cfg k args hi]
  rfl

end Args

theorem puts_extend (cs : List UInt8) (s : Engine) :
    (s.extend g).puts (cfg.both k args) cs = (s.puts cfg cs).extend g := by
  induction cs generalizing s with
  | nil => rfl
  | cons c cs ih => exact ih (s.put cfg c)

theorem convertChar_extend (hap : s.ap < k) (hnext : s.format.next ≠ .past) :
    convertChar (cfg.both k args) d (s.extend g) = (convertChar cfg d s).extend g := by
  have harg : (cfg.both k args).args.int (s.extend g).ap = cfg.args.int s.ap :=
    both_int_of_lt cfg k args hap
  have hap' : { s.extend g with ap := (s.extend g).ap + 1 }
      = Engine.extend g { s with ap := s.ap + 1 } := rfl
  have hput : ∀ c (t : Engine), (t.extend g).put (cfg.both k args) c = (t.put cfg c).extend g :=
    fun _ _ => rfl
  have hformat : ∀ t : Engine, t.format = s.format →
      { t.extend g with format := (t.extend g).format.next }
        = Engine.extend g { t with format := t.format.next } := by
    intro t ht
    simp only [Engine.extend, ht, (Cursor.next_extend hnext).1]
  unfold convertChar
  dsimp only
  rw [harg, hap']
  cases d.align with
  | false =>
    simp only [if_true, Bool.false_eq_true, if_false]
    rw [puts_extend, hput, hformat _ (by simp)]
  | true =>
    simp only [if_true, reduceCtorEq, if_false]
    rw [hput, puts_extend, hformat _ (by simp)]

theorem putSign_extend (v : Number) :
    putSign (cfg.both k args) d v (s.extend g)
      = ((putSign cfg d v s).1, (putSign cfg d v s).2.extend g) := by
  unfold putSign
  dsimp only
  split_ifs <;> rfl

theorem putSharp_extend (v : Number) (n : UInt64) :
    putSharp (cfg.both k args) v n (s.extend g) = (putSharp cfg v n s).extend g := by
  unfold putSharp
  split
  · split_ifs <;> rfl
  · split_ifs <;> rfl
  · rfl

theorem convertInteger_extend (c : UInt8) (hap : s.ap < k) (hnext : s.format.next ≠ .past) :
    convertInteger (cfg.both k args) c d (s.extend g)
      = (convertInteger cfg c d s).map (Engine.extend g) := by
  have hfetch : fetch (cfg.both k args) d (normalizeType (typeBits c)) (s.extend g).ap
      = fetch cfg d (normalizeType (typeBits c)) s.ap := fetch_of_lt cfg k args hap d _
  have hap' : { s.extend g with ap := (s.extend g).ap + 1 }
      = Engine.extend g { s with ap := s.ap + 1 } := rfl
  unfold convertInteger
  dsimp only
  rw [hfetch, hap', putSign_extend]
  dsimp only
  rw [putSharp_extend, puts_extend]
  split_ifs
  · rfl
  · simp only [Option.map_some, Engine.extend, Engine.puts_format, (putSharp_format _ _ _ _).1,
      (putSign_format _ _ _ _).1, (Cursor.next_extend hnext).1]

theorem startString_extend (hap : s.ap < k) :
    startString (cfg.both k args) d (s.extend g) = (startString cfg d s).extend g := by
  have harg : (cfg.both k args).args.string (s.extend g).ap = cfg.args.string s.ap :=
    both_string_of_lt cfg k args hap
  have hap' : { s.extend g with ap := (s.extend g).ap + 1 }
      = Engine.extend g { s with ap := s.ap + 1 } := rfl
  have hwidth : widthSize (cfg.both k args) d = widthSize cfg d := rfl
  unfold startString
  dsimp only
  rw [harg, hap', hwidth, puts_extend]
  split_ifs <;> rfl

theorem endString_extend (len : Nat) (hnext : s.format.next ≠ .past) :
    endString (cfg.both k args) d len (s.extend g) = (endString cfg d len s).extend g := by
  have hwidth : widthSize (cfg.both k args) d = widthSize cfg d := rfl
  unfold endString
  rw [hwidth, puts_extend]
  dsimp only
  split_ifs
  · simp only [Engine.extend, Engine.puts_format, (Cursor.next_extend hnext).1]
  · simp only [Engine.extend, (Cursor.next_extend hnext).1]

theorem stepPrecision_extend (hap : (stepPrecision cfg d s).engine.ap ≤ k)
    (hinside : (stepPrecision cfg d s).Inside) :
    stepPrecision (cfg.both k args) d (s.extend g) = (stepPrecision cfg d s).extend g := by
  cases hs : s.format.next with
  | past =>
    unfold stepPrecision at hinside
    simp only [hs] at hinside
    exact absurd rfl hinside.1
  | inside l =>
    have hnext := (Cursor.next_extend (g := g) (show s.format.next ≠ .past by rw [hs]; nofun)).1
    rw [hs] at hnext
    cases l with
    | nil =>
      unfold stepPrecision at hinside
      simp only [hs] at hinside
      exact absurd rfl hinside.2
    | cons c rest =>
      have hnext' : (s.extend g).format.next = .inside (c :: (rest ++ g)) := hnext
      unfold stepPrecision at hap hinside ⊢
      simp only [hs, hnext'] at hap hinside ⊢
      split_ifs at hap hinside ⊢ with hstar hdigit
      · have harg : (cfg.both k args).args.int (s.extend g).ap = cfg.args.int s.ap :=
          both_int_of_lt cfg k args hap
        rw [harg]
        rfl
      · have hne : (c :: rest).dropWhile isdigit ≠ [] := fun h => hinside.2 (congrArg Cursor.inside h)
        obtain ⟨hdrop, hatoi⟩ := digits_extend (g := g) hne
        rw [List.cons_append] at hdrop hatoi
        rw [hatoi, Cursor.skipDigits, hdrop]
        rfl
      · rfl

theorem stepInner_extend {φ' : Phase} {c : UInt8} (hs : s.format.read = some c)
    (hstep : stepInner cfg c d s = .inl φ') (hap : φ'.engine.ap ≤ k) (hinside : φ'.Inside) :
    stepInner (cfg.both k args) c d (s.extend g) = .inl (φ'.extend g) := by
  unfold stepInner at hstep ⊢
  cases ht : classify c with
  | number =>
    simp only [ht] at hstep ⊢
    cases hstep
    have hnext := (Cursor.next_extend (g := g) hinside.1).1
    have harg : (cfg.both k args).args.pointer s.ap = cfg.args.pointer s.ap :=
      both_pointer_of_lt cfg k args hap
    simp only [Engine.extend, harg, hnext]
    rfl
  | digit =>
    simp only [ht] at hstep ⊢
    cases hformat : s.format with
    | past =>
      rw [hformat] at hs
      cases hs
    | inside l =>
      simp only [hformat] at hstep
      cases hstep
      have hne : l.dropWhile isdigit ≠ [] := fun h => hinside.2 (congrArg Cursor.inside h)
      obtain ⟨hdrop, hatoi⟩ := digits_extend (g := g) hne
      simp only [Engine.extend, hformat, Cursor.extend, hatoi, Cursor.skipDigits, hdrop]
      rfl
  | star =>
    simp only [ht] at hstep ⊢
    cases hstep
    have hnext := (Cursor.next_extend (g := g) hinside.1).1
    have harg : (cfg.both k args).args.int s.ap = cfg.args.int s.ap :=
      both_int_of_lt cfg k args hap
    simp only [Engine.extend, harg, hnext]
    rfl
  | period =>
    simp only [ht] at hstep ⊢
    cases hstep
    rw [stepPrecision_extend cfg k args hap hinside]
  | longDouble =>
    simp only [ht] at hstep ⊢
    cases hstep
    rfl
  | char =>
    simp only [ht] at hstep ⊢
    cases hstep
    have hfmt := convertChar_format cfg d s
    have hap' : (convertChar cfg d s).ap ≤ k := hap
    have hne : (convertChar cfg d s).format ≠ .past := hinside
    rw [convertChar_extend cfg k args (by omega) (hfmt.1 ▸ hne)]
    rfl
  | string =>
    simp only [ht] at hstep ⊢
    cases hstep
    obtain ⟨len, s', heq, -, hap'⟩ := startString_eq cfg d s
    rw [heq] at hap
    have hle : s'.ap ≤ k := hap
    rw [startString_extend cfg k args (by omega)]
  | integer =>
    simp only [ht] at hstep ⊢
    cases hconv : convertInteger cfg c d s with
    | none =>
      rw [hconv] at hstep
      cases hstep
    | some s' =>
      rw [hconv] at hstep
      cases hstep
      have hfmt := convertInteger_format hconv
      have hle : s'.ap ≤ k := hap
      have hne : s'.format ≠ .past := hinside
      rw [convertInteger_extend cfg k args c (by omega) (hfmt.1 ▸ hne), hconv]
      rfl
  | real =>
    simp only [ht] at hstep ⊢
    cases hstep
    have hnext := (Cursor.next_extend (g := g) (show s.format.next ≠ .past from hinside)).1
    simp only [Engine.extend, hnext]
    rfl
  | other =>
    simp only [ht] at hstep ⊢
    cases hstep
    have hnext := (Cursor.next_extend (g := g) (show s.format.next ≠ .past from hinside)).1
    simp only [Engine.extend, hnext]
    rfl
  | _ =>
    simp only [ht] at hstep ⊢
    cases hstep
    have hnext := (Cursor.next_extend (g := g) hinside.1).1
    simp only [Engine.extend, hnext]
    rfl

/-- The engine does the same before another format, as long as it does not come to the end of
its own in a directive. -/
theorem step_extend {φ φ' : Phase} (hstep : step cfg φ = .inl φ') (hap : φ'.engine.ap ≤ k)
    (hinside : φ'.Inside) :
    step (cfg.both k args) (φ.extend g) = .inl (φ'.extend g) := by
  cases φ with
  | outer s =>
    cases hs : s.format with
    | past =>
      simp only [step, hs, Cursor.read] at hstep
      cases hstep
    | inside l =>
      cases l with
      | nil =>
        simp only [step, hs, Cursor.read, if_true] at hstep
        cases hstep
      | cons c rest =>
        have hs' : (s.extend g).format = .inside (c :: (rest ++ g)) := by
          simp only [Engine.extend, hs, Cursor.extend, List.cons_append]
        show step (cfg.both k args) (.outer (s.extend g)) = _
        by_cases hc0 : c = 0
        · simp only [step, hs, Cursor.read, hc0, if_true] at hstep
          cases hstep
        by_cases hc : c = 0x25
        · subst hc
          cases rest with
          | nil =>
            rw [step_outer_directive hs (by simp)] at hstep
            cases hstep
            exact absurd rfl hinside.2
          | cons c' rest =>
            by_cases hc' : c' = 0x25
            · subst hc'
              rw [step_outer_percent hs] at hstep
              cases hstep
              exact step_outer_percent hs'
            · rw [step_outer_directive hs (by simpa using hc')] at hstep
              cases hstep
              exact step_outer_directive hs' (by simpa using hc')
        · rw [step_outer_char hs hc0 hc] at hstep
          cases hstep
          exact step_outer_char hs' hc0 hc
  | inner d s =>
    cases hs : s.format.read with
    | none =>
      simp only [step, hs] at hstep
      cases hstep
    | some c =>
      have hstep' : stepInner cfg c d s = .inl φ' := by
        simp only [step, hs] at hstep
        exact hstep
      cases hformat : s.format with
      | past =>
        rw [hformat] at hs
        cases hs
      | inside l =>
        cases l with
        | nil =>
          rw [step_inner_nil hformat] at hstep
          cases hstep
          exact absurd rfl hinside
        | cons c' rest =>
          have hread : (s.extend g).format.read = some c := by
            rw [← hs, hformat]
            simp only [Engine.extend, hformat]
            rfl
          show step (cfg.both k args) (.inner d (s.extend g)) = _
          simp only [step, hread]
          exact stepInner_extend cfg k args hs hstep' hap hinside
  | string d len bytes s =>
    show step (cfg.both k args) (.string d len bytes (s.extend g)) = _
    cases bytes with
    | nil =>
      have hφ' : Phase.outer (endString cfg d len s) = φ' := Sum.inl.inj hstep
      rw [← hφ'] at hinside ⊢
      have hne : (endString cfg d len s).format ≠ .past := hinside
      rw [(endString_format cfg d len s).1] at hne
      exact congrArg (fun t => Sum.inl (Phase.outer t)) (endString_extend cfg k args len hne)
    | cons c rest =>
      have hhandler : (cfg.both k args).handler = cfg.handler := rfl
      unfold step at hstep ⊢
      dsimp only at hstep ⊢
      rw [hhandler]
      split_ifs at hstep ⊢
      · cases hstep
        rfl
      · cases hstep
        rfl

end Before

/-! ## Runs -/

section Runs

variable {cfg : Config} {φ φ' : Phase}

/-- The arguments are used in turn. -/
theorem step_ap_le (hstep : step cfg φ = .inl φ') : φ.engine.ap ≤ φ'.engine.ap := by
  cases φ with
  | outer s =>
    unfold step at hstep
    dsimp only at hstep
    split at hstep
    · cases hstep
    · split_ifs at hstep <;> cases hstep <;> exact Nat.le_refl _
  | inner d s =>
    unfold step at hstep
    dsimp only at hstep
    split at hstep
    · cases hstep
    rename_i c hread
    unfold stepInner at hstep
    cases ht : classify c with
    | digit =>
      simp only [ht] at hstep
      split at hstep <;> cases hstep
      exact Nat.le_refl _
    | period =>
      simp only [ht] at hstep
      cases hstep
      unfold stepPrecision
      dsimp only
      split
      · split_ifs
        · exact Nat.le_succ _
        · exact Nat.le_refl _
        · exact Nat.le_refl _
      · exact Nat.le_refl _
    | char =>
      simp only [ht] at hstep
      cases hstep
      show s.ap ≤ (convertChar cfg d s).ap
      rw [(convertChar_format cfg d s).2]
      exact Nat.le_succ _
    | string =>
      simp only [ht] at hstep
      cases hstep
      obtain ⟨len, s', heq, -, hap⟩ := startString_eq cfg d s
      rw [heq]
      show s.ap ≤ s'.ap
      omega
    | integer =>
      simp only [ht] at hstep
      split at hstep <;> cases hstep
      rename_i s' hconv
      show s.ap ≤ s'.ap
      rw [(convertInteger_format hconv).2]
      exact Nat.le_succ _
    | _ =>
      simp only [ht] at hstep
      cases hstep
      first | exact Nat.le_succ _ | exact Nat.le_refl _
  | string d len bytes s =>
    unfold step at hstep
    dsimp only at hstep
    split at hstep
    · cases hstep
      show s.ap ≤ (endString cfg d len s).ap
      exact Nat.le_of_eq (endString_format cfg d len s).2.symm
    · split_ifs at hstep <;> cases hstep <;> exact Nat.le_refl _

/-- Behind the end of the format there is no way back. -/
theorem not_inside_step (hφ : ¬ φ.Inside) (hstep : step cfg φ = .inl φ') : ¬ φ'.Inside := by
  cases φ with
  | outer s =>
    have hpast : s.format = .past := not_not.mp hφ
    simp only [step, hpast, Cursor.read] at hstep
    cases hstep
  | inner d s =>
    by_cases hpast : s.format = .past
    · simp only [step, hpast, Cursor.read] at hstep
      cases hstep
    · have hnil : s.format = .inside [] := by
        by_contra hne
        exact hφ ⟨hpast, hne⟩
      rw [step_inner_nil hnil] at hstep
      cases hstep
      exact not_not.mpr rfl
  | string d len bytes s =>
    have hpast : s.format = .past := not_not.mp hφ
    unfold step at hstep
    dsimp only at hstep
    split at hstep
    · cases hstep
      refine not_not.mpr ?_
      rw [(endString_format cfg d len s).1, hpast]
      rfl
    · split_ifs at hstep
      · cases hstep
        exact not_not.mpr hpast
      · cases hstep
        exact not_not.mpr hpast

/-- A phase on the way to the end of the format. -/
theorem visits_end {s : Engine} (hv : Visits (step cfg) φ (.outer s)) (hs : s.format = .inside []) :
    φ.engine.ap ≤ s.ap ∧ φ.Inside := by
  have hend : Phase.Inside (.outer s) := by
    show s.format ≠ .past
    rw [hs]
    nofun
  induction hv using Relation.ReflTransGen.head_induction_on with
  | refl => exact ⟨Nat.le_refl _, hend⟩
  | head hstep _ ih =>
    refine ⟨Nat.le_trans (step_ap_le hstep) ih.1, ?_⟩
    by_contra hout
    exact not_inside_step hout hstep ih.2

/-- A format that the engine gets through is one before any other. -/
theorem Finishes.extend {f : CString} {count : Int32} {k : Nat} {out : List Event}
    (h : Finishes cfg f count k out) (g : CString) (args : Args) :
    Visits (step (cfg.both k args)) (start (f.append g)) (.outer ⟨.inside g.val, count, k, out⟩) := by
  have hgen : ∀ φ, Visits (step cfg) φ (.outer ⟨.inside [], count, k, out⟩) →
      Visits (step (cfg.both k args)) (φ.extend g.val) (.outer ⟨.inside g.val, count, k, out⟩) := by
    intro φ hv
    induction hv using Relation.ReflTransGen.head_induction_on with
    | refl => exact .refl
    | head hstep hrest ih =>
      obtain ⟨hap, hinside⟩ := visits_end hrest rfl
      exact .head (step_extend cfg k args hstep hap hinside) ih
  exact hgen (start f) h

/-- The text that is left has no NUL. -/
def Cursor.NulFree : Cursor → Prop
  | .inside rest => 0 ∉ rest
  | .past => True

theorem Cursor.NulFree.next {cur : Cursor} (h : cur.NulFree) : cur.next.NulFree := by
  cases cur with
  | past => trivial
  | inside rest =>
    cases rest with
    | nil => trivial
    | cons c rest => exact fun hmem => h (List.mem_cons_of_mem c hmem)

theorem Cursor.NulFree.skipDigits {cur : Cursor} (h : cur.NulFree) : cur.skipDigits.NulFree := by
  cases cur with
  | past => trivial
  | inside rest => exact fun hmem => h ((List.dropWhile_sublist _).subset hmem)

theorem stepInner_nulFree {c : UInt8} {d : Directive} {s : Engine} (hs : s.format.NulFree)
    (hstep : stepInner cfg c d s = .inl φ') : φ'.engine.format.NulFree := by
  unfold stepInner at hstep
  cases ht : classify c with
  | digit =>
    simp only [ht] at hstep
    split at hstep
    · cases hstep
      exact hs.skipDigits
    · cases hstep
  | period =>
    simp only [ht] at hstep
    cases hstep
    unfold stepPrecision
    dsimp only
    split
    · next c' rest hformat =>
      have hnext : (Cursor.inside (c' :: rest)).NulFree := hformat ▸ hs.next
      split_ifs
      · exact hnext.next
      · exact hnext.skipDigits
      · exact hs.next
    · exact hs.next
  | char =>
    simp only [ht] at hstep
    cases hstep
    show (convertChar cfg d s).format.NulFree
    rw [(convertChar_format cfg d s).1]
    exact hs.next
  | string =>
    simp only [ht] at hstep
    cases hstep
    obtain ⟨len, s', heq, hformat, -⟩ := startString_eq cfg d s
    rw [heq]
    exact hformat ▸ hs
  | integer =>
    simp only [ht] at hstep
    split at hstep <;> cases hstep
    rename_i s' hconv
    show s'.format.NulFree
    rw [(convertInteger_format hconv).1]
    exact hs.next
  | longDouble =>
    simp only [ht] at hstep
    cases hstep
    exact hs
  | _ =>
    simp only [ht] at hstep
    cases hstep
    exact hs.next

theorem step_nulFree (hφ : φ.engine.format.NulFree) (hstep : step cfg φ = .inl φ') :
    φ'.engine.format.NulFree := by
  cases φ with
  | outer s =>
    have hs : s.format.NulFree := hφ
    unfold step at hstep
    dsimp only at hstep
    split at hstep
    · cases hstep
    · split_ifs at hstep <;> cases hstep
      · exact hs.next
      · exact hs.next.next
      · exact hs.next
  | inner d s =>
    unfold step at hstep
    dsimp only at hstep
    split at hstep
    · cases hstep
    · exact stepInner_nulFree hφ hstep
  | string d len bytes s =>
    have hs : s.format.NulFree := hφ
    unfold step at hstep
    dsimp only at hstep
    split at hstep
    · cases hstep
      show (endString cfg d len s).format.NulFree
      rw [(endString_format cfg d len s).1]
      exact hs.next
    · split_ifs at hstep <;> cases hstep <;> exact hs

/-- The engine returns at the end of the format only. -/
theorem step_eq_returned {count : Int32} {out : List Event} (hφ : φ.engine.format.NulFree)
    (hstep : step cfg φ = .inr (.returned count out)) :
    ∃ k, φ = .outer ⟨.inside [], count, k, out⟩ := by
  cases φ with
  | outer s =>
    obtain ⟨format, n, ap, o⟩ := s
    cases format with
    | past => cases hstep
    | inside rest =>
      cases rest with
      | nil =>
        cases hstep
        exact ⟨ap, rfl⟩
      | cons c rest =>
        have hc0 : c ≠ 0 := fun h => hφ (h ▸ List.mem_cons_self)
        have hread : (Cursor.inside (c :: rest)).read = some c := rfl
        simp only [step, hread, if_neg hc0] at hstep
        split at hstep
        · cases hstep
        · split at hstep <;> cases hstep
  | inner d s =>
    unfold step at hstep
    dsimp only at hstep
    split at hstep
    · cases hstep
    · unfold stepInner at hstep
      split at hstep
      all_goals first
        | cases hstep
        | (split at hstep <;> cases hstep)
  | string d len bytes s =>
    unfold step at hstep
    dsimp only at hstep
    split at hstep
    · cases hstep
    · split_ifs at hstep

/-- The engine gets through exactly the formats that it returns from. -/
theorem exists_finishes_iff (f : CString) :
    (∃ count k out, Finishes cfg f count k out) ↔ TerminatesInside cfg f := by
  constructor
  · rintro ⟨count, k, out, h⟩
    refine ⟨count, out, (h.returns_iff).mpr (Returns.done ?_)⟩
    simp only [step, Cursor.read, if_true]
  · rintro ⟨count, out, h⟩
    obtain ⟨φ, hv, hdone⟩ := h.visits
    have hfree : Always (step cfg) (fun φ => φ.engine.format.NulFree) (start f) :=
      always_of_invariant _ (fun _ h => h) (fun _ _ h hstep => step_nulFree h hstep) f.property
    obtain ⟨k, rfl⟩ := step_eq_returned (hfree φ hv) hdone
    exact ⟨count, k, out, hv⟩

theorem composes_iff (f : CString) : Composes cfg f ↔ TerminatesInside cfg f := by
  rw [← exists_finishes_iff]
  constructor
  · rintro ⟨count, k, out, h, -⟩
    exact ⟨count, k, out, h⟩
  · rintro ⟨count, k, out, h⟩
    refine ⟨count, k, out, h, fun g args r => ?_⟩
    exact (h.extend g args).returns_iff.trans (returns_after_iff cfg count k out args g r)

end Runs

end Xeos.Video.Printf
