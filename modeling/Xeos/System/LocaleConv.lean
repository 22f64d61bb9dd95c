import Mathlib.Logic.Function.Basic
import Mathlib.Tactic.SplitIfs

/-!
# The conventions of the current locale

`System_Locale_SetLocale`, `System_Locale_GetLConv` and `System_Locale_GetCurrentLocale`.
The record of the current locale points to parts of the records of the named locales.  The
`struct lconv` that the library returns is filled from it at the first call, and again after a
setting of a category that it shows.

The record of the current locale and the named records are in one memory, so that a write to a
named record could be seen.  A part of a record is given by its contents, and a text by its
pointer, as neither is ever written.
-/

namespace Xeos.System.Locale

/-! ## Data -/

/-- `struct __System_Locale_Numeric`. -/
structure Numeric (P : Type) where
  decimal_point : P
  thousands_sep : P
  grouping : P

/-- `struct __System_Locale_Monetary`. -/
structure Monetary (P : Type) where
  int_curr_symbol : P
  currency_symbol : P
  mon_decimal_point : P
  mon_thousands_sep : P
  positive_sign : P
  negative_sign : P
  mon_grouping : P
  int_frac_digits : Int32
  frac_digits : Int32
  p_cs_precedes : Int32
  p_sep_by_space : Int32
  n_cs_precedes : Int32
  n_sep_by_space : Int32
  p_sign_posn : Int32
  n_sign_posn : Int32
  int_p_cs_precedes : Int32
  int_p_sep_by_space : Int32
  int_n_cs_precedes : Int32
  int_n_sep_by_space : Int32
  int_p_sign_posn : Int32
  int_n_sign_posn : Int32

/-- `struct lconv`. -/
structure LConv (P : Type) where
  decimal_point : P
  thousands_sep : P
  grouping : P
  mon_decimal_point : P
  mon_thousands_sep : P
  mon_grouping : P
  positive_sign : P
  negative_sign : P
  currency_symbol : P
  int_curr_symbol : P
  frac_digits : Int8
  p_cs_precedes : Int8
  n_cs_precedes : Int8
  p_sep_by_space : Int8
  n_sep_by_space : Int8
  p_sign_posn : Int8
  n_sign_posn : Int8
  int_frac_digits : Int8
  int_p_cs_precedes : Int8
  int_n_cs_precedes : Int8
  int_p_sep_by_space : Int8
  int_n_sep_by_space : Int8
  int_p_sign_posn : Int8
  int_n_sign_posn : Int8

/-- `struct __System_Locale`.  `none` is `NULL`.  Nothing here looks into the parts for the
other categories. -/
structure Record (P : Type) where
  name : Option P
  lc_collate : Option P
  lc_ctype : Option P
  lc_messages : Option P
  lc_monetary : Option (Monetary P)
  lc_numeric : Option (Numeric P)
  lc_time : Option P

/-- `System_LocaleRef`: the address of `__locale` or of the record of a named locale. -/
inductive LocaleRef (N : Type) where
  | current
  | named (n : N)
deriving DecidableEq

/-- The named locales.  Every record has its numeric and its monetary part. -/
structure Locales (P N : Type) where
  record : N → Record P
  GetLocale : List UInt8 → Option N
  GetDefaultLocale : N
  numeric : ∀ n, (record n).lc_numeric.isSome
  monetary : ∀ n, (record n).lc_monetary.isSome

/-- The static variables. -/
structure State (P N : Type) where
  records : LocaleRef N → Record P
  inited : Bool
  /-- `__System_Locale_LocalConvNeedUpdate`. -/
  needUpdate : Bool
  lconv : LConv P

def LC_ALL : Int32 := 0
def LC_COLLATE : Int32 := 1
def LC_CTYPE : Int32 := 2
def LC_MONETARY : Int32 := 3
def LC_NUMERIC : Int32 := 4
def LC_TIME : Int32 := 5
def LC_MESSAGES : Int32 := 6

def CHAR_MAX : Int8 := 0x7F

variable {P N : Type}

/-! ## The code -/

/-- The state before the first call. -/
def State.boot (L : Locales P N) (lconv : LConv P) : State P N where
  records
    | .current => ⟨none, none, none, none, none, none, none⟩
    | .named n => L.record n
  inited := false
  needUpdate := true
  lconv := lconv

section Code

variable [DecidableEq N]

/-- Assignments to fields of a record. -/
def State.modify (r : LocaleRef N) (f : Record P → Record P) (s : State P N) : State P N :=
  { s with records := Function.update s.records r (f (s.records r)) }

/-- `System_Locale_GetCurrentLocale`. -/
def GetCurrentLocale (L : Locales P N) (s : State P N) : LocaleRef N × State P N :=
  if s.inited = false then
    let defaultLocale := s.records (.named L.GetDefaultLocale)
    let s := { s with inited := true }
    (.current, s.modify .current fun r => { r with
      lc_collate := defaultLocale.lc_collate
      lc_ctype := defaultLocale.lc_ctype
      lc_messages := defaultLocale.lc_messages
      lc_monetary := defaultLocale.lc_monetary
      lc_numeric := defaultLocale.lc_numeric
      lc_time := defaultLocale.lc_time })
  else (.current, s)

/-- `System_Locale_SetLocale`, with the name that it returns.  There is no result if no locale
has the name. -/
def SetLocale (L : Locales P N) (category : Int32) (name : List UInt8) (s : State P N) :
    Option (Option P × State P N) :=
  let (currentLocale, s) := GetCurrentLocale L s
  match L.GetLocale name with
  | none => none
  | some n =>
    let newLocale := s.records (.named n)
    let s :=
      if category = LC_ALL then
        { s.modify currentLocale fun r => { r with
            lc_collate := newLocale.lc_collate
            lc_ctype := newLocale.lc_ctype
            lc_messages := newLocale.lc_messages
            lc_monetary := newLocale.lc_monetary
            lc_numeric := newLocale.lc_numeric
            lc_time := newLocale.lc_time } with needUpdate := true }
      else if category = LC_COLLATE then
        s.modify currentLocale fun r => { r with lc_collate := newLocale.lc_collate }
      else if category = LC_CTYPE then
        s.modify currentLocale fun r => { r with lc_ctype := newLocale.lc_ctype }
      else if category = LC_MESSAGES then
        s.modify currentLocale fun r => { r with lc_messages := newLocale.lc_messages }
      else if category = LC_MONETARY then
        { s.modify currentLocale fun r => { r with lc_monetary := newLocale.lc_monetary } with
          needUpdate := true }
      else if category = LC_NUMERIC then
        { s.modify currentLocale fun r => { r with lc_numeric := newLocale.lc_numeric } with
          needUpdate := true }
      else if category = LC_TIME then
        s.modify currentLocale fun r => { r with lc_time := newLocale.lc_time }
      else s
    some (newLocale.name, s)

/-- `( v == -1 ) ? CHAR_MAX : ( char )( v )`. -/
def charOf (v : Int32) : Int8 := if v = -1 then CHAR_MAX else v.toInt8

/-- The assignments of `System_Locale_GetLConv`. -/
def fill (numeric : Numeric P) (monetary : Monetary P) : LConv P where
  decimal_point := numeric.decimal_point
  thousands_sep := numeric.thousands_sep
  grouping := numeric.grouping
  mon_decimal_point := monetary.mon_decimal_point
  mon_thousands_sep := monetary.mon_thousands_sep
  mon_grouping := monetary.mon_grouping
  positive_sign := monetary.positive_sign
  negative_sign := monetary.negative_sign
  currency_symbol := monetary.currency_symbol
  int_curr_symbol := monetary.int_curr_symbol
  frac_digits := charOf monetary.frac_digits
  p_cs_precedes := charOf monetary.p_cs_precedes
  n_cs_precedes := charOf monetary.n_cs_precedes
  p_sep_by_space := charOf monetary.p_sep_by_space
  n_sep_by_space := charOf monetary.n_sep_by_space
  p_sign_posn := charOf monetary.p_sign_posn
  n_sign_posn := charOf monetary.n_sign_posn
  int_frac_digits := charOf monetary.int_frac_digits
  int_p_cs_precedes := charOf monetary.int_p_cs_precedes
  int_n_cs_precedes := charOf monetary.int_n_cs_precedes
  int_p_sep_by_space := charOf monetary.int_p_sep_by_space
  int_n_sep_by_space := charOf monetary.int_n_sep_by_space
  int_p_sign_posn := charOf monetary.int_p_sign_posn
  int_n_sign_posn := charOf monetary.int_n_sign_posn

/-- `System_Locale_GetLConv`.  There is no result if a part of the current locale is `NULL`. -/
def GetLConv (L : Locales P N) (s : State P N) : Option (LConv P × State P N) :=
  if s.needUpdate = true then
    let (locale, s) := GetCurrentLocale L { s with needUpdate := false }
    match (s.records locale).lc_numeric, (s.records locale).lc_monetary with
    | some numeric, some monetary =>
      some (fill numeric monetary, { s with lconv := fill numeric monetary })
    | _, _ => none
  else some (s.lconv, s)

/-! ## Runs -/

inductive Call where
  | setLocale (category : Int32) (name : List UInt8)
  | getLConv

def Call.exec (L : Locales P N) : Call → State P N → Option (State P N)
  | .setLocale category name, s => (SetLocale L category name s).map Prod.snd
  | .getLConv, s => (GetLConv L s).map Prod.snd

/-- The state after some calls. -/
def run (L : Locales P N) (calls : List Call) (s : State P N) : Option (State P N) :=
  calls.foldlM (fun s call => call.exec L s) s

end Code

/-- `System_Locale_GetLocale` finds a locale for the name of the call. -/
def Call.Found (L : Locales P N) : Call → Prop
  | .setLocale _ name => (L.GetLocale name).isSome
  | .getLConv => True

/-- The locale of a category after one more call. -/
def Call.select (L : Locales P N) (category : Int32) (n : N) : Call → N
  | .setLocale c name =>
    if c = category ∨ c = LC_ALL then (L.GetLocale name).getD n else n
  | .getLConv => n

/-- The locale that the calls have last selected for a category. -/
def selected (L : Locales P N) (category : Int32) (calls : List Call) : N :=
  calls.foldl (Call.select L category) L.GetDefaultLocale

/-- The value of a small number as a `char`. -/
def IsChar (c : Int8) (v : Int32) : Prop := (v = -1 → c = CHAR_MAX) ∧ (v ≠ -1 → c = v.toInt8)

/-- The fields agree with the numeric and the monetary data. -/
structure Shows (lconv : LConv P) (numeric : Numeric P) (monetary : Monetary P) : Prop where
  decimal_point : lconv.decimal_point = numeric.decimal_point
  thousands_sep : lconv.thousands_sep = numeric.thousands_sep
  grouping : lconv.grouping = numeric.grouping
  mon_decimal_point : lconv.mon_decimal_point = monetary.mon_decimal_point
  mon_thousands_sep : lconv.mon_thousands_sep = monetary.mon_thousands_sep
  mon_grouping : lconv.mon_grouping = monetary.mon_grouping
  positive_sign : lconv.positive_sign = monetary.positive_sign
  negative_sign : lconv.negative_sign = monetary.negative_sign
  currency_symbol : lconv.currency_symbol = monetary.currency_symbol
  int_curr_symbol : lconv.int_curr_symbol = monetary.int_curr_symbol
  frac_digits : IsChar lconv.frac_digits monetary.frac_digits
  p_cs_precedes : IsChar lconv.p_cs_precedes monetary.p_cs_precedes
  n_cs_precedes : IsChar lconv.n_cs_precedes monetary.n_cs_precedes
  p_sep_by_space : IsChar lconv.p_sep_by_space monetary.p_sep_by_space
  n_sep_by_space : IsChar lconv.n_sep_by_space monetary.n_sep_by_space
  p_sign_posn : IsChar lconv.p_sign_posn monetary.p_sign_posn
  n_sign_posn : IsChar lconv.n_sign_posn monetary.n_sign_posn
  int_frac_digits : IsChar lconv.int_frac_digits monetary.int_frac_digits
  int_p_cs_precedes : IsChar lconv.int_p_cs_precedes monetary.int_p_cs_precedes
  int_n_cs_precedes : IsChar lconv.int_n_cs_precedes monetary.int_n_cs_precedes
  int_p_sep_by_space : IsChar lconv.int_p_sep_by_space monetary.int_p_sep_by_space
  int_n_sep_by_space : IsChar lconv.int_n_sep_by_space monetary.int_n_sep_by_space
  int_p_sign_posn : IsChar lconv.int_p_sign_posn monetary.int_p_sign_posn
  int_n_sign_posn : IsChar lconv.int_n_sign_posn monetary.int_n_sign_posn

theorem isChar_charOf (v : Int32) : IsChar (charOf v) v := ⟨fun h => if_pos h, fun h => if_neg h⟩

theorem shows_fill (numeric : Numeric P) (monetary : Monetary P) :
    Shows (fill numeric monetary) numeric monetary := by
  constructor
  all_goals first | rfl | exact isChar_charOf _

/-! ## The cache -/

/-- The fields agree with the data of these locales. -/
def ShowsLocales (L : Locales P N) (lconv : LConv P) (num mon : N) : Prop :=
  ∃ numeric monetary, (L.record num).lc_numeric = some numeric ∧
    (L.record mon).lc_monetary = some monetary ∧ Shows lconv numeric monetary

/-- The current locale has the numeric part of `num` and the monetary part of `mon`. -/
structure Selects (L : Locales P N) (num mon : N) (s : State P N) : Prop where
  named : ∀ n, s.records (.named n) = L.record n
  numeric : s.inited = true → (s.records .current).lc_numeric = (L.record num).lc_numeric
  monetary : s.inited = true → (s.records .current).lc_monetary = (L.record mon).lc_monetary
  started : s.inited = false → num = L.GetDefaultLocale ∧ mon = L.GetDefaultLocale

/-- What the cache holds is from these locales, unless it is to be filled again. -/
structure Coherent (L : Locales P N) (num mon : N) (s : State P N) : Prop
    extends Selects L num mon s where
  cached : s.needUpdate = false → ShowsLocales L s.lconv num mon

/-- A request to fill the cache again. -/
theorem Selects.refill {L : Locales P N} {num mon : N} {s : State P N} (h : Selects L num mon s) :
    Coherent L num mon { s with needUpdate := true } :=
  ⟨⟨h.named, h.numeric, h.monetary, h.started⟩, nofun⟩

theorem coherent_boot (L : Locales P N) (lconv : LConv P) :
    Coherent L L.GetDefaultLocale L.GetDefaultLocale (State.boot L lconv) where
  named _ := rfl
  numeric := nofun
  monetary := nofun
  started _ := ⟨rfl, rfl⟩
  cached := nofun

theorem select_of_hit {L : Locales P N} {category c : Int32} {name : List UInt8} {n : N}
    (hname : L.GetLocale name = some n) (hc : c = category ∨ c = LC_ALL) (num : N) :
    Call.select L category num (.setLocale c name) = n := by
  rw [Call.select, if_pos hc, hname, Option.getD_some]

theorem select_of_miss {L : Locales P N} {category c : Int32} (name : List UInt8)
    (hc : ¬ (c = category ∨ c = LC_ALL)) (num : N) :
    Call.select L category num (.setLocale c name) = num := if_neg hc

section Step

variable [DecidableEq N] {L : Locales P N} {num mon num' mon' n : N} {s : State P N}

section Modify

variable (f : Record P → Record P)

@[simp] theorem modify_current :
    (s.modify .current f).records .current = f (s.records .current) := by
  simp only [State.modify, Function.update_self]

@[simp] theorem modify_named (n : N) :
    (s.modify .current f).records (.named n) = s.records (.named n) := by
  have hne : LocaleRef.named n ≠ .current := nofun
  simp only [State.modify, Function.update_of_ne hne]

@[simp] theorem modify_inited (r : LocaleRef N) : (s.modify r f).inited = s.inited := rfl

@[simp] theorem modify_needUpdate (r : LocaleRef N) :
    (s.modify r f).needUpdate = s.needUpdate := rfl

@[simp] theorem modify_lconv (r : LocaleRef N) : (s.modify r f).lconv = s.lconv := rfl

end Modify

/-- Assignments to fields of the current locale. -/
theorem Selects.modify (h : Selects L num mon s) (hinited : s.inited = true)
    {f : Record P → Record P}
    (hnum : (f (s.records .current)).lc_numeric = (L.record num').lc_numeric)
    (hmon : (f (s.records .current)).lc_monetary = (L.record mon').lc_monetary) :
    Selects L num' mon' (s.modify .current f) where
  named n := by
    rw [modify_named]
    exact h.named n
  numeric _ := by
    rw [modify_current]
    exact hnum
  monetary _ := by
    rw [modify_current]
    exact hmon
  started hfalse := by
    rw [modify_inited, hinited] at hfalse
    cases hfalse

/-- The current locale is the default locale before any setting. -/
theorem Selects.getCurrentLocale (h : Selects L num mon s) :
    ∃ s', GetCurrentLocale L s = (.current, s') ∧ s'.inited = true ∧ Selects L num mon s' ∧
      s'.needUpdate = s.needUpdate ∧ s'.lconv = s.lconv := by
  cases hinited : s.inited with
  | true =>
    exact ⟨s, by rw [GetCurrentLocale, if_neg (by simp [hinited])], hinited, h, rfl, rfl⟩
  | false =>
    obtain ⟨hnum, hmon⟩ := h.started hinited
    refine ⟨_, if_pos hinited, rfl, ⟨fun n => ?_, fun _ => ?_, fun _ => ?_, nofun⟩, rfl, rfl⟩
    · rw [modify_named]
      exact h.named n
    · rw [modify_current, hnum, ← h.named]
    · rw [modify_current, hmon, ← h.named]

/-- A setting changes the parts that it should, and asks for a new cache when it has to. -/
theorem setLocale_coherent (h : Coherent L num mon s) {name : List UInt8}
    (hname : L.GetLocale name = some n) (category : Int32) :
    ∃ r s', SetLocale L category name s = some (r, s') ∧
      Coherent L (Call.select L LC_NUMERIC num (.setLocale category name))
        (Call.select L LC_MONETARY mon (.setLocale category name)) s' := by
  obtain ⟨t, hcurrent, hinited, ht, hupdate, hlconv⟩ := h.toSelects.getCurrentLocale
  have hnum := ht.numeric hinited
  have hmon := ht.monetary hinited
  have hnew : t.records (.named n) = L.record n := ht.named n
  have hcached : t.needUpdate = false → ShowsLocales L t.lconv num mon := by
    rw [hupdate, hlconv]
    exact h.cached
  simp only [SetLocale, hcurrent, hname]
  refine ⟨_, _, rfl, ?_⟩
  by_cases hall : category = LC_ALL
  · rw [if_pos hall, select_of_hit hname (.inr hall), select_of_hit hname (.inr hall), hnew]
    exact (ht.modify hinited rfl rfl).refill
  rw [if_neg hall]
  by_cases hmonetary : category = LC_MONETARY
  · subst hmonetary
    rw [select_of_miss name (by decide), select_of_hit hname (.inl rfl), if_neg (by decide),
      if_neg (by decide), if_neg (by decide), if_pos rfl, hnew]
    exact (ht.modify hinited hnum rfl).refill
  by_cases hnumeric : category = LC_NUMERIC
  · subst hnumeric
    rw [select_of_hit hname (.inl rfl), select_of_miss name (by decide), if_neg (by decide),
      if_neg (by decide), if_neg (by decide), if_neg (by decide), if_pos rfl, hnew]
    exact (ht.modify hinited rfl hmon).refill
  -- the other categories leave both parts as they are
  rw [select_of_miss name (by simp [hall, hnumeric]), select_of_miss name (by simp [hall, hmonetary]),
    if_neg hmonetary, if_neg hnumeric]
  split_ifs
  · exact ⟨ht.modify hinited hnum hmon, hcached⟩
  · exact ⟨ht.modify hinited hnum hmon, hcached⟩
  · exact ⟨ht.modify hinited hnum hmon, hcached⟩
  · exact ⟨ht.modify hinited hnum hmon, hcached⟩
  · exact ⟨ht, hcached⟩

/-- The result of a query is from the locales of the two categories. -/
theorem getLConv_coherent (h : Coherent L num mon s) :
    ∃ lconv s', GetLConv L s = some (lconv, s') ∧ Coherent L num mon s' ∧
      ShowsLocales L lconv num mon := by
  cases hupdate : s.needUpdate with
  | false => exact ⟨s.lconv, s, if_neg (by simp [hupdate]), h, h.cached hupdate⟩
  | true =>
    obtain ⟨numeric, hnumeric⟩ := Option.isSome_iff_exists.mp (L.numeric num)
    obtain ⟨monetary, hmonetary⟩ := Option.isSome_iff_exists.mp (L.monetary mon)
    have hshows : ShowsLocales L (fill numeric monetary) num mon :=
      ⟨numeric, monetary, hnumeric, hmonetary, shows_fill numeric monetary⟩
    have hclear : Selects L num mon { s with needUpdate := false } :=
      ⟨h.named, h.numeric, h.monetary, h.started⟩
    obtain ⟨t, hcurrent, hinited, ht, -⟩ := hclear.getCurrentLocale
    refine ⟨fill numeric monetary, { t with lconv := fill numeric monetary }, ?_,
      ⟨⟨ht.named, ht.numeric, ht.monetary, ht.started⟩, fun _ => hshows⟩, hshows⟩
    rw [GetLConv, if_pos hupdate, hcurrent]
    simp only [ht.numeric hinited, hnumeric, ht.monetary hinited, hmonetary]

/-- Every call keeps the cache in step with the settings. -/
theorem exec_coherent (h : Coherent L num mon s) {call : Call} (hfound : call.Found L) :
    ∃ s', call.exec L s = some s' ∧
      Coherent L (call.select L LC_NUMERIC num) (call.select L LC_MONETARY mon) s' := by
  cases call with
  | setLocale category name =>
    obtain ⟨n, hname⟩ := Option.isSome_iff_exists.mp hfound
    obtain ⟨r, s', hset, hs'⟩ := setLocale_coherent h hname category
    exact ⟨s', by rw [Call.exec, hset, Option.map_some], hs'⟩
  | getLConv =>
    obtain ⟨lconv, s', hget, hs', -⟩ := getLConv_coherent h
    exact ⟨s', by rw [Call.exec, hget, Option.map_some], hs'⟩

theorem run_coherent (h : Coherent L num mon s) {calls : List Call}
    (hfound : ∀ call ∈ calls, call.Found L) :
    ∃ s', run L calls s = some s' ∧ Coherent L (calls.foldl (Call.select L LC_NUMERIC) num)
      (calls.foldl (Call.select L LC_MONETARY) mon) s' := by
  induction calls generalizing s num mon with
  | nil => exact ⟨s, rfl, h⟩
  | cons call calls ih =>
    obtain ⟨t, hexec, ht⟩ := exec_coherent h (hfound call List.mem_cons_self)
    obtain ⟨s', hrun, hs'⟩ := ih ht fun c hc => hfound c (List.mem_cons_of_mem call hc)
    refine ⟨s', ?_, hs'⟩
    rw [run, List.foldlM_cons, hexec]
    exact hrun

/-- After any settings by names that lead to locales and any queries, a query returns the data
of the locales last selected, and the records of the named locales are as they were. -/
theorem getLConv_selected (L : Locales P N) (lconv : LConv P) {calls : List Call}
    (hfound : ∀ call ∈ calls, call.Found L) :
    ∃ s, run L calls (State.boot L lconv) = some s ∧ (∀ n, s.records (.named n) = L.record n) ∧
      ∃ result s', GetLConv L s = some (result, s') ∧
        ShowsLocales L result (selected L LC_NUMERIC calls) (selected L LC_MONETARY calls) ∧
        ∀ n, s'.records (.named n) = L.record n := by
  obtain ⟨s, hrun, hs⟩ := run_coherent (coherent_boot L lconv) hfound
  obtain ⟨result, s', hget, hs', hshows⟩ := getLConv_coherent hs
  exact ⟨s, hrun, hs.named, result, s', hget, hshows, hs'.named⟩

end Step

/-! ## The only locale of the library -/

/-- `System_Locale_GetCLocale`. -/
def GetCLocale (defaultLocale : N) : N := defaultLocale

/-- `System_Locale_GetPOSIXLocale`. -/
def GetPOSIXLocale (defaultLocale : N) : N := GetCLocale defaultLocale

/-- `System_Locale_GetLocale`. -/
def GetLocale (defaultLocale : N) (name : List UInt8) : N :=
  if name.length = 0 then GetCLocale defaultLocale
  else if name = [0x43] then GetCLocale defaultLocale
  else if name = [0x50, 0x4F, 0x53, 0x49, 0x58] then GetPOSIXLocale defaultLocale
  else defaultLocale

/-- The default locale with the numbers in `monetary`, and every text at its own address. -/
def defaultMonetary : Monetary Nat :=
  ⟨1, 2, 3, 4, 5, 6, 7, -1, 2, 1, 0, 1, 0, -1, -1, -1, -1, -1, -1, -1, -1⟩

/-- The library as it is: every name leads to the default locale. -/
def onlyDefault : Locales Nat Unit where
  record _ := ⟨some 8, some 9, some 10, some 11, some defaultMonetary, some ⟨12, 13, 14⟩, some 15⟩
  GetLocale name := some (GetLocale () name)
  GetDefaultLocale := ()
  numeric _ := rfl
  monetary _ := rfl

theorem getLConv_selected_onlyDefault :
    ∃ s, run onlyDefault [.setLocale LC_ALL [0x43], .getLConv, .setLocale LC_NUMERIC []]
        (State.boot onlyDefault (fill ⟨0, 0, 0⟩ defaultMonetary)) = some s ∧
      (∀ n, s.records (.named n) = onlyDefault.record n) ∧
      ∃ result s', GetLConv onlyDefault s = some (result, s') ∧
        ShowsLocales onlyDefault result () () ∧
        ∀ n, s'.records (.named n) = onlyDefault.record n := by
  refine getLConv_selected onlyDefault _ fun call hcall => ?_
  simp only [List.mem_cons, List.not_mem_nil, or_false] at hcall
  rcases hcall with rfl | rfl | rfl
  · exact rfl
  · exact trivial
  · exact rfl

end Xeos.System.Locale
