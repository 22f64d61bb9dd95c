import Mathlib.Data.List.GetD
import Mathlib.Data.List.Nodup
import Xeos.InitRD.Mkinitrd

/-!
# The round trip of a RAM disk

What the kernel should find in the image of a list of files, and when it does.

The image is right whenever the files fit in it.  When they do not, the program ends
with a failure only if a file starts past the last offset, or is larger than the
last one itself: the end of a file is not checked, and neither is the length of a
name.
-/

namespace Xeos.InitRD

open Lib

/-- A file that the program is given. -/
structure File where
  path : CString
  bytes : List UInt8

namespace File

/-- The base name. -/
def name (f : File) : List UInt8 := filename f.path

end File

/-- The last part of a path. -/
theorem filename_spec (path : CString) : (47 : UInt8) ∉ filename path ∧
    (path.1 = filename path ∨ ∃ dir, path.1 = dir ++ 47 :: filename path) := by
  have hlast : ∀ s : List UInt8, (strrchr 47 s = none → (47 : UInt8) ∉ s) ∧
      ∀ k, strrchr 47 s = some k → (47 : UInt8) ∉ s.drop (k + 1) ∧
        ∃ dir, s = dir ++ 47 :: s.drop (k + 1) := by
    intro s
    induction s with
    | nil => exact ⟨fun _ => List.not_mem_nil, fun k h => nomatch h⟩
    | cons b s ih =>
      cases hs : strrchr 47 s with
      | none =>
        by_cases hb : b = 47
        · subst hb
          simp [strrchr, hs, ih.1 hs]
        · simp [strrchr, hs, ih.1 hs, hb, Ne.symm hb]
      | some k =>
        obtain ⟨hnot, dir, hdir⟩ := ih.2 k hs
        simp only [strrchr, hs, reduceCtorEq, false_implies, Option.some.injEq, true_and]
        rintro _ rfl
        refine ⟨hnot, b :: dir, ?_⟩
        rw [List.cons_append, List.drop_succ_cons, ← hdir]
  rw [filename]
  cases hs : strrchr 47 path.1 with
  | none => exact ⟨(hlast path.1).1 hs, Or.inl rfl⟩
  | some k =>
    obtain ⟨hnot, hdir⟩ := (hlast path.1).2 k hs
    exact ⟨hnot, Or.inr hdir⟩

/-! ## What the kernel should find -/

/-- Where the data of a file is: behind the entries and the files before it. -/
def offsetOf (files : List File) (i : Nat) : Nat :=
  sizeofHeader + sizeofEntry * files.length + ((files.take i).map (·.bytes.length)).sum

def imageSize (files : List File) : Nat := offsetOf files files.length

/-- An image in memory. -/
def Loaded (m : Memory) (a : Nat) (img : List UInt8) : Prop :=
  ∀ i (h : i < img.length), m (a + i) = img[i]

/-- A C string in memory. -/
def StringAt (m : Memory) (a : Nat) (s : List UInt8) : Prop :=
  (∀ i (h : i < s.length), m (a + i) = s[i]) ∧ m (a + s.length) = 0

/-- The entry at `e` is the one of a file, in an image of `size` bytes at `a`. -/
structure EntryOf (m : Memory) (a e tableEnd size : Nat) (f : File) : Prop where
  name : StringAt m (entryGetFilename e) f.name
  length : entryGetSize m e = f.bytes.length
  behind : tableEnd ≤ entryGetOffset m e
  inside : entryGetOffset m e + entryGetSize m e ≤ size
  slice : ∀ k (h : k < f.bytes.length), m (a + entryGetOffset m e + k) = f.bytes[k]

/-- What the kernel finds in the image, wherever the image is. -/
structure Holds (img : List UInt8) (files : List File) : Prop where
  valid : ∀ m a, a ≠ 0 → Loaded m a img → initRDIsValid m a = true
  count : ∀ m a, a ≠ 0 → Loaded m a img → initRDGetEntryCount m a = files.length
  entries : ∀ m a, a ≠ 0 → Loaded m a img → ∀ i f, files[i]? = some f →
    EntryOf m a (a + sizeofHeader + sizeofEntry * i) (sizeofHeader + sizeofEntry * files.length)
      img.length f
  disjoint : ∀ m a, a ≠ 0 → Loaded m a img → ∀ i j, i < j → j < files.length →
    entryGetOffset m (a + sizeofHeader + sizeofEntry * i)
        + entryGetSize m (a + sizeofHeader + sizeofEntry * i)
      ≤ entryGetOffset m (a + sizeofHeader + sizeofEntry * j)

/-- The files of a call: there is one, they can be read, none is empty, and their base
names are distinct. -/
structure Given (w : World) (files : List File) : Prop where
  nonempty : files ≠ []
  read : ∀ f ∈ files, w.content f.path = some f.bytes ∧ f.bytes ≠ []
  distinct : (files.map (·.name)).Nodup

/-- An image can have the files. -/
def Representable (files : List File) : Prop :=
  (∀ f ∈ files, f.name.length ≤ INITRD_FILENAME_MAXLENGTH) ∧ imageSize files ≤ UINT32_MAX

/-- What the program should do. -/
def RoundTrips (w : World) (argv : List CString) (output : CString) (files : List File) : Prop :=
  (Representable files → ∃ w' img, mkinitrd w argv = .success w' ∧
    w'.content output = some img ∧ Holds img files) ∧
  (¬ Representable files → ∃ message w', mkinitrd w argv = .failure message w')

/-- A file that the program refuses. -/
def Refused (files : List File) (i : Nat) (f : File) : Prop :=
  UINT32_MAX < offsetOf files i ∨ UINT32_MAX < f.bytes.length

/-- The name of a file does not run past the entries. -/
def Fits (files : List File) (i : Nat) (f : File) : Prop :=
  sizeofEntry * i + (f.name.length + 1) ≤ sizeofEntry * files.length

/-! ## One file -/

section

variable {w : World} {files : List File} {s : Entries} {k : Nat} {f : File}

/-- The loop got to file `k`. -/
structure Filled (files : List File) (k : Nat) (s : Entries) : Prop where
  filenames : s.filenames = (files.take k).map (·.name)
  contents : s.files = (files.take k).map (·.bytes)
  offset : s.offset = offsetOf files k

/-- The entry of a file, in its place. -/
def putEntry (table : Memory) (k : Nat) (f : File) (offset : Nat) : Memory :=
  ((strcpy table (sizeofEntry * k) f.name).store (sizeofEntry * k + 256) 4
    f.bytes.length).store (sizeofEntry * k + 260) 4 offset

theorem offsetOf_succ (hk : files[k]? = some f) :
    offsetOf files (k + 1) = offsetOf files k + f.bytes.length := by
  rw [offsetOf, offsetOf, List.take_add_one, hk, Option.toList_some, List.map_append,
    List.sum_append, List.map_singleton, List.sum_singleton]
  omega

theorem offsetOf_mono {i j : Nat} (hij : i ≤ j) : offsetOf files i ≤ offsetOf files j := by
  induction j with
  | zero =>
    obtain rfl : i = 0 := by omega
    exact Nat.le_refl _
  | succ j ih =>
    rcases Nat.lt_or_eq_of_le hij with hlt | rfl
    · refine (ih (by omega)).trans ?_
      cases hj : files[j]? with
      | some f =>
        rw [offsetOf_succ hj]
        omega
      | none =>
        rw [offsetOf, offsetOf, List.take_add_one, hj, Option.toList_none, List.append_nil]
    · exact Nat.le_refl _

theorem Given.name_fresh (h : Given w files) (hk : files[k]? = some f) :
    f.name ∉ (files.take k).map (·.name) := by
  intro hmem
  have hlt : k < files.length := (List.getElem?_eq_some_iff.mp hk).1
  obtain ⟨j, hj, hname⟩ := List.mem_iff_getElem.mp hmem
  rw [List.length_map, List.length_take] at hj
  rw [List.getElem_map, List.getElem_take] at hname
  have hlength : (files.map (·.name)).length = files.length := List.length_map _
  have hj' : j < (files.map (·.name)).length := by omega
  have hk' : k < (files.map (·.name)).length := by omega
  have hnames : (files.map (·.name))[j] = (files.map (·.name))[k] := by
    rw [List.getElem_map, List.getElem_map, hname, (List.getElem?_eq_some_iff.mp hk).2]
  have hjk := (h.distinct.getElem_inj_iff).mp hnames
  omega

theorem filesize_eq : filesize f.bytes = if UINT32_MAX < f.bytes.length then 0
    else f.bytes.length := rfl

/-- What becomes of one file. -/
theorem fillEntry_cases (h : Given w files) (hk : files[k]? = some f) (hs : Filled files k s) :
    (¬ Fits files k f ∧ fillEntry w files.length f.path s = .undefined) ∨
    (Fits files k f ∧ Refused files k f ∧
      ∃ message, fillEntry w files.length f.path s = .error message) ∨
    (Fits files k f ∧ ¬ Refused files k f ∧ ∃ s', fillEntry w files.length f.path s = .ok s' ∧
      Filled files (k + 1) s' ∧ s'.table = putEntry s.table k f (offsetOf files k)) := by
  have hlt : k < files.length := (List.getElem?_eq_some_iff.mp hk).1
  have hmem : f ∈ files := List.mem_of_getElem? hk
  have hcount : s.filenames.length = k := by
    rw [hs.filenames, List.length_map, List.length_take]
    omega
  have hname : filename f.path ∉ s.filenames := by
    rw [hs.filenames]
    exact h.name_fresh hk
  rw [fillEntry, if_neg hname, (h.read f hmem).1, hcount, hs.offset]
  dsimp only
  rw [show filename f.path = f.name from rfl]
  by_cases hfits : Fits files k f
  · rw [if_neg (Nat.not_lt.mpr hfits)]
    by_cases hoffset : UINT32_MAX < offsetOf files k
    · rw [if_pos hoffset]
      exact Or.inr (Or.inl ⟨hfits, Or.inl hoffset, _, rfl⟩)
    · rw [if_neg hoffset]
      by_cases hsize : UINT32_MAX < f.bytes.length
      · rw [if_pos (by rw [filesize_eq, if_pos hsize])]
        exact Or.inr (Or.inl ⟨hfits, Or.inr hsize, _, rfl⟩)
      · have hlength : filesize f.bytes = f.bytes.length := by rw [filesize_eq, if_neg hsize]
        have hpos : f.bytes.length ≠ 0 := by
          rw [Ne, List.length_eq_zero_iff]
          exact (h.read f hmem).2
        rw [hlength, if_neg hpos]
        have hmax : UINT32_MAX < 2 ^ 32 := by decide
        refine Or.inr (Or.inr ⟨hfits, fun hrefused => hrefused.elim hoffset hsize, _, rfl, ?_, ?_⟩)
        · refine ⟨?_, ?_, (offsetOf_succ hk).symm⟩
          · rw [hs.filenames, List.take_add_one, hk, List.map_append]
            rfl
          · rw [hs.contents, List.take_add_one, hk, List.map_append]
            rfl
        · rw [Nat.mod_eq_of_lt (by omega)]
          rfl
  · rw [if_pos (Nat.lt_of_not_le hfits)]
    exact Or.inl ⟨hfits, rfl⟩

/-! ## All files -/

theorem fillEntries_cons (w : World) (n : Nat) (path : CString) (paths : List CString)
    (s : Entries) :
    fillEntries w n (path :: paths) s =
      match fillEntry w n path s with
      | .undefined => .undefined
      | .error message => .error message
      | .ok s => fillEntries w n paths s := rfl

/-- The loop from file `k` on ends with an error when a file is refused and no name
before it runs past the entries. -/
theorem fillEntries_error_iff (h : Given w files) {rest : List File} (hrest : files.drop k = rest)
    (hs : Filled files k s) :
    (∃ message, fillEntries w files.length (rest.map (·.path)) s = .error message) ↔
      ∃ i f, k ≤ i ∧ files[i]? = some f ∧ Refused files i f ∧
        ∀ j g, k ≤ j → j ≤ i → files[j]? = some g → Fits files j g := by
  induction rest generalizing k s with
  | nil =>
    constructor
    · rintro ⟨message, hmessage⟩
      exact nomatch hmessage
    · rintro ⟨i, f, hki, hi, -⟩
      have hle := List.drop_eq_nil_iff.mp hrest
      have hlt := (List.getElem?_eq_some_iff.mp hi).1
      omega
  | cons f rest ih =>
    have hk : files[k]? = some f := by
      have hhead : (files.drop k)[0]? = some f := by rw [hrest]; rfl
      rwa [List.getElem?_drop] at hhead
    have htail : files.drop (k + 1) = rest := by
      rw [← List.drop_drop, hrest]
      rfl
    rw [List.map_cons, fillEntries_cons]
    rcases fillEntry_cases h hk hs with
      ⟨hfits, hdone⟩ | ⟨hfits, hrefused, message, hdone⟩ | ⟨hfits, hrefused, s', hdone, hs', -⟩
    · rw [hdone]
      constructor
      · rintro ⟨message, hmessage⟩
        exact nomatch hmessage
      · rintro ⟨i, g, hki, hi, -, hall⟩
        exact absurd (hall k f (Nat.le_refl _) hki hk) hfits
    · rw [hdone]
      refine ⟨fun _ => ⟨k, f, Nat.le_refl _, hk, hrefused, fun j g hkj hjk hj => ?_⟩,
        fun _ => ⟨message, rfl⟩⟩
      obtain rfl : j = k := by omega
      obtain rfl : g = f := Option.some.inj (hj.symm.trans hk)
      exact hfits
    · rw [hdone]
      refine (ih htail hs').trans ⟨?_, ?_⟩
      · rintro ⟨i, g, hki, hi, hg, hall⟩
        refine ⟨i, g, by omega, hi, hg, fun j g' hkj hji hj => ?_⟩
        rcases Nat.lt_or_eq_of_le hkj with hlt | rfl
        · exact hall j g' hlt hji hj
        · obtain rfl : g' = f := Option.some.inj (hj.symm.trans hk)
          exact hfits
      · rintro ⟨i, g, hki, hi, hg, hall⟩
        refine ⟨i, g, ?_, hi, hg, fun j g' hkj hji hj => hall j g' (by omega) hji hj⟩
        rcases Nat.lt_or_eq_of_le hki with hlt | rfl
        · exact hlt
        · obtain rfl : g = f := Option.some.inj (hi.symm.trans hk)
          exact absurd hg hrefused

/-- The entries of the files before file `k`. -/
def Table (files : List File) (k : Nat) (table : Memory) : Prop :=
  ∀ i f, i < k → files[i]? = some f → StringAt table (sizeofEntry * i) f.name ∧
    table.load (sizeofEntry * i + 256) 4 = f.bytes.length ∧
    table.load (sizeofEntry * i + 260) 4 = offsetOf files i

theorem putEntry_of_lt {table : Memory} {offset b : Nat} (hb : b < sizeofEntry * k) :
    putEntry table k f offset b = table b := by
  rw [putEntry, Memory.store_of_not_mem _ _ (by omega), Memory.store_of_not_mem _ _ (by omega),
    strcpy, if_neg (by omega)]

/-- The loop adds an entry. -/
theorem Table.put {table : Memory} (h : Table files k table) (hk : files[k]? = some f)
    (hnames : ∀ f ∈ files, f.name.length ≤ INITRD_FILENAME_MAXLENGTH)
    (hoffset : offsetOf files k ≤ UINT32_MAX) (hsize : f.bytes.length ≤ UINT32_MAX) :
    Table files (k + 1) (putEntry table k f (offsetOf files k)) := by
  have hmax : UINT32_MAX < 256 ^ 4 := by decide
  intro i g hi hget
  have hshort : g.name.length ≤ 255 := hnames g (List.mem_of_getElem? hget)
  rcases Nat.lt_or_eq_of_le (Nat.le_of_lt_succ hi) with hlt | rfl
  · -- an entry before it
    obtain ⟨⟨hname, hzero⟩, hlength, hoff⟩ := h i g hlt hget
    have hsame : ∀ b, b < sizeofEntry * i + 264 →
        putEntry table k f (offsetOf files k) b = table b := by
      intro b hb
      refine putEntry_of_lt ?_
      rw [sizeofEntry] at hb ⊢
      omega
    refine ⟨⟨fun j hj => ?_, ?_⟩, ?_, ?_⟩
    · rw [hsame _ (by omega)]
      exact hname j hj
    · rw [hsame _ (by omega)]
      exact hzero
    · exact (Memory.load_congr fun j hj => hsame _ (by omega)).trans hlength
    · exact (Memory.load_congr fun j hj => hsame _ (by omega)).trans hoff
  · -- the new one
    obtain rfl : g = f := Option.some.inj (hget.symm.trans hk)
    refine ⟨⟨fun j hj => ?_, ?_⟩, ?_, ?_⟩
    · rw [putEntry, Memory.store_of_not_mem _ _ (by omega), Memory.store_of_not_mem _ _ (by omega),
        strcpy, if_pos (by omega), Nat.add_sub_cancel_left]
      exact (List.getElem_eq_getD 0).symm
    · rw [putEntry, Memory.store_of_not_mem _ _ (by omega), Memory.store_of_not_mem _ _ (by omega),
        strcpy, if_pos (by omega), Nat.add_sub_cancel_left]
      exact List.getD_eq_default _ _ (Nat.le_refl _)
    · rw [putEntry, Memory.load_store_of_disjoint _ _ (by omega), Memory.load_store,
        Nat.mod_eq_of_lt (by omega)]
    · rw [putEntry, Memory.load_store, Nat.mod_eq_of_lt (by omega)]

/-- When no file is refused and no name is too long, the loop gets to the end. -/
theorem fillEntries_ok (h : Given w files)
    (hnames : ∀ f ∈ files, f.name.length ≤ INITRD_FILENAME_MAXLENGTH)
    (hrefused : ∀ i f, files[i]? = some f → ¬ Refused files i f) {rest : List File}
    (hrest : files.drop k = rest) (hs : Filled files k s) (htable : Table files k s.table) :
    ∃ s', fillEntries w files.length (rest.map (·.path)) s = .ok s' ∧
      Filled files files.length s' ∧ Table files files.length s'.table := by
  induction rest generalizing k s with
  | nil =>
    have hle := List.drop_eq_nil_iff.mp hrest
    refine ⟨s, rfl, ⟨?_, ?_, ?_⟩, fun i f hi hget => htable i f (by omega) hget⟩
    · rw [hs.filenames, List.take_of_length_le hle, List.take_length]
    · rw [hs.contents, List.take_of_length_le hle, List.take_length]
    · rw [hs.offset, offsetOf, offsetOf, List.take_of_length_le hle, List.take_length]
  | cons f rest ih =>
    have hk : files[k]? = some f := by
      have hhead : (files.drop k)[0]? = some f := by rw [hrest]; rfl
      rwa [List.getElem?_drop] at hhead
    have htail : files.drop (k + 1) = rest := by
      rw [← List.drop_drop, hrest]
      rfl
    have hlt : k < files.length := (List.getElem?_eq_some_iff.mp hk).1
    have hshort : f.name.length ≤ 255 := hnames f (List.mem_of_getElem? hk)
    have hnot := hrefused k f hk
    rcases fillEntry_cases h hk hs with
      ⟨hfits, -⟩ | ⟨-, hbad, -⟩ | ⟨-, -, s', hdone, hs', hput⟩
    · refine absurd ?_ hfits
      rw [Fits, sizeofEntry]
      omega
    · exact absurd hbad hnot
    · rw [List.map_cons, fillEntries_cons, hdone]
      have hbound : offsetOf files k ≤ UINT32_MAX ∧ f.bytes.length ≤ UINT32_MAX := by
        rw [Refused, not_or, Nat.not_lt, Nat.not_lt] at hnot
        exact hnot
      exact ih htail hs' (hput ▸ htable.put hk hnames hbound.1 hbound.2)

end

/-! ## The image -/

theorem copyFile_eq (rest out : List UInt8) : copyFile rest out = out ++ rest := by
  induction hn : rest.length using Nat.strongRecOn generalizing rest out with
  | ind n ih =>
    rw [copyFile]
    by_cases hempty : rest.take 4096 = []
    · rw [if_pos hempty]
      have hnil : rest = [] := by
        rcases List.take_eq_nil_iff.mp hempty with hzero | hnil
        · omega
        · exact hnil
      rw [hnil, List.append_nil]
    · have hpos : 0 < rest.length := by
        rw [List.length_pos_iff]
        rintro rfl
        exact hempty rfl
      rw [if_neg hempty, ih (rest.drop 4096).length (by rw [List.length_drop]; omega) _ _ rfl,
        List.append_assoc, List.take_append_drop]

theorem image_eq (s : Entries) (n : Nat) :
    image s n = header n ++ (bytesOf s.table (sizeofEntry * n) ++ s.files.flatten) := by
  have hfold : ∀ (files : List (List UInt8)) out,
      files.foldl (fun out file => copyFile file out) out = out ++ files.flatten := by
    intro files
    induction files with
    | nil => exact fun out => (List.append_nil out).symm
    | cons file files ih =>
      intro out
      rw [List.foldl_cons, ih, copyFile_eq, List.flatten_cons, List.append_assoc]
  rw [image, hfold, List.append_assoc]

theorem length_bytesOf (m : Memory) (n : Nat) : (bytesOf m n).length = n := by
  rw [bytesOf, List.length_map, List.length_range]

theorem getElem?_bytesOf {m : Memory} {n i : Nat} (hi : i < n) : (bytesOf m n)[i]? = some (m i) := by
  rw [bytesOf, List.getElem?_map, List.getElem?_range hi]
  rfl

/-- The bytes of a list of files, one after the other. -/
theorem getElem?_flatten {L : List (List UInt8)} {i k : Nat} {x : List UInt8} (hi : L[i]? = some x)
    (hk : k < x.length) : L.flatten[((L.take i).map List.length).sum + k]? = x[k]? := by
  induction L generalizing i with
  | nil => exact nomatch hi
  | cons y L ih =>
    cases i with
    | zero =>
      obtain rfl : y = x := Option.some.inj hi
      rw [List.flatten_cons, List.take_zero, List.map_nil, List.sum_nil, Nat.zero_add,
        List.getElem?_append_left hk]
    | succ i =>
      rw [List.flatten_cons, List.take_succ_cons, List.map_cons, List.sum_cons, Nat.add_assoc,
        List.getElem?_append_right (Nat.le_add_right _ _), Nat.add_sub_cancel_left]
      exact ih hi

section

variable {files : List File} {s : Entries} {m : Memory} {a : Nat}

theorem Loaded.byte {img : List UInt8} (h : Loaded m a img) {i : Nat} {b : UInt8}
    (hi : img[i]? = some b) : m (a + i) = b := by
  obtain ⟨hlt, hb⟩ := List.getElem?_eq_some_iff.mp hi
  rw [h i hlt, hb]

/-- The header of a loaded image. -/
theorem loaded_header {n : Nat} (h : Loaded m a (image s n)) (hn : n < 2 ^ 32) :
    m.load a 4 = INITRD_SIGNATURE ∧ m.load (a + 4) 4 = n := by
  have hbyte : ∀ i < 8, m (a + i)
      = ((Memory.store (fun _ => 0) 0 4 INITRD_SIGNATURE).store 4 4 (n % 2 ^ 32)) i := by
    intro i hi
    refine h.byte ?_
    rw [image_eq, List.getElem?_append_left (by rw [header, length_bytesOf]; exact hi)]
    exact getElem?_bytesOf hi
  constructor
  · have hload : m.load a 4
        = ((Memory.store (fun _ => 0) 0 4 INITRD_SIGNATURE).store 4 4 (n % 2 ^ 32)).load 0 4 :=
      Memory.load_congr fun i hi => by rw [Nat.zero_add]; exact hbyte i (by omega)
    rw [hload, Memory.load_store_of_disjoint _ _ (by omega), Memory.load_store]
    rfl
  · have hload : m.load (a + 4) 4
        = ((Memory.store (fun _ => 0) 0 4 INITRD_SIGNATURE).store 4 4 (n % 2 ^ 32)).load 4 4 :=
      Memory.load_congr fun i hi => by rw [Nat.add_assoc]; exact hbyte (4 + i) (by omega)
    rw [hload, Memory.load_store, Nat.mod_eq_of_lt hn, Nat.mod_eq_of_lt (by omega)]

/-- The entries of a loaded image. -/
theorem loaded_table {n b : Nat} (h : Loaded m a (image s n)) (hb : b < sizeofEntry * n) :
    m (a + sizeofHeader + b) = s.table b := by
  rw [Nat.add_assoc]
  refine h.byte ?_
  have hheader : (header n).length = sizeofHeader := length_bytesOf _ _
  rw [image_eq, List.getElem?_append_right (by omega), hheader, Nat.add_sub_cancel_left,
    List.getElem?_append_left (by rw [length_bytesOf]; exact hb), getElem?_bytesOf hb]

/-- The bytes of a file in a loaded image. -/
theorem loaded_data (hs : Filled files files.length s) (h : Loaded m a (image s files.length))
    {i k : Nat} {f : File} (hi : files[i]? = some f) (hk : k < f.bytes.length) :
    m (a + offsetOf files i + k) = f.bytes[k] := by
  have hheader : (header files.length).length = sizeofHeader := length_bytesOf _ _
  have hcontents : s.files = files.map (·.bytes) := by rw [hs.contents, List.take_length]
  have hoffset : offsetOf files i + k = sizeofHeader + (sizeofEntry * files.length
      + (((files.map (·.bytes)).take i).map List.length).sum + k) := by
    have hlengths : ((files.map (·.bytes)).take i).map List.length
        = (files.take i).map (·.bytes.length) := by
      rw [← List.map_take, List.map_map]
      rfl
    rw [offsetOf, hlengths]
    omega
  rw [Nat.add_assoc, hoffset]
  refine h.byte ?_
  rw [image_eq, List.getElem?_append_right (by omega), hheader, Nat.add_sub_cancel_left,
    Nat.add_assoc, List.getElem?_append_right (by rw [length_bytesOf]; omega), length_bytesOf,
    Nat.add_sub_cancel_left, hcontents,
    getElem?_flatten (by rw [List.getElem?_map, hi]; rfl) hk, List.getElem?_eq_getElem hk]

theorem length_image (hs : Filled files files.length s) :
    (image s files.length).length = imageSize files := by
  have hcontents : s.files = files.map (·.bytes) := by rw [hs.contents, List.take_length]
  rw [image_eq, List.length_append, List.length_append, header, length_bytesOf, length_bytesOf,
    List.length_flatten, hcontents, List.map_map, imageSize, offsetOf, List.take_length,
    ← Nat.add_assoc]
  rfl

end

/-- The image of a table with all the entries. -/
theorem holds_image {files : List File} {s : Entries} (hs : Filled files files.length s)
    (htable : Table files files.length s.table) (hrep : Representable files) :
    Holds (image s files.length) files := by
  have hmax : UINT32_MAX < 2 ^ 32 := by decide
  have hcount : files.length < 2 ^ 32 := by
    have hsize := hrep.2
    rw [imageSize, offsetOf, sizeofEntry] at hsize
    omega
  -- the fields of an entry in memory
  have hentry : ∀ m a, a ≠ 0 → Loaded m a (image s files.length) → ∀ i f, files[i]? = some f →
      StringAt m (a + sizeofHeader + sizeofEntry * i) f.name ∧
      entryGetSize m (a + sizeofHeader + sizeofEntry * i) = f.bytes.length ∧
      entryGetOffset m (a + sizeofHeader + sizeofEntry * i) = offsetOf files i := by
    intro m a ha hload i f hi
    have hlt : i < files.length := (List.getElem?_eq_some_iff.mp hi).1
    have hshort : f.name.length ≤ 255 := hrep.1 f (List.mem_of_getElem? hi)
    obtain ⟨⟨hname, hzero⟩, hlength, hoffset⟩ := htable i f hlt hi
    have hbyte : ∀ b < 264, m (a + sizeofHeader + sizeofEntry * i + b)
        = s.table (sizeofEntry * i + b) := by
      intro b hb
      rw [Nat.add_assoc]
      refine loaded_table hload ?_
      rw [sizeofEntry]
      omega
    refine ⟨⟨fun j hj => ?_, ?_⟩, ?_, ?_⟩
    · rw [hbyte j (by omega)]
      exact hname j hj
    · rw [hbyte _ (by omega)]
      exact hzero
    · rw [entryGetSize, if_neg (by omega), ← hlength]
      exact Memory.load_congr fun j hj => by
        rw [Nat.add_assoc, hbyte _ (by omega), Nat.add_assoc]
    · rw [entryGetOffset, if_neg (by omega), ← hoffset]
      exact Memory.load_congr fun j hj => by
        rw [Nat.add_assoc, hbyte _ (by omega), Nat.add_assoc]
  refine ⟨fun m a ha hload => ?_, fun m a ha hload => ?_, fun m a ha hload i f hi => ?_,
    fun m a ha hload i j hij hj => ?_⟩
  · rw [initRDIsValid, if_neg ha, initRDGetSignature, if_neg ha, (loaded_header hload hcount).1]
    rfl
  · rw [initRDGetEntryCount, if_neg ha, (loaded_header hload hcount).2]
  · obtain ⟨hname, hlength, hoffset⟩ := hentry m a ha hload i f hi
    refine ⟨hname, hlength, ?_, ?_, fun k hk => ?_⟩
    · rw [hoffset, offsetOf]
      omega
    · have hlt : i < files.length := (List.getElem?_eq_some_iff.mp hi).1
      rw [hoffset, hlength, length_image hs, ← offsetOf_succ hi]
      exact offsetOf_mono hlt
    · rw [hoffset]
      exact loaded_data hs hload hi hk
  · have hi : files[i]? = some files[i] := List.getElem?_eq_getElem (by omega)
    have hj' : files[j]? = some files[j] := List.getElem?_eq_getElem hj
    rw [(hentry m a ha hload i _ hi).2.2, (hentry m a ha hload i _ hi).2.1,
      (hentry m a ha hload j _ hj').2.2, ← offsetOf_succ hi]
    exact offsetOf_mono hij

/-! ## The program -/

/-- The start of the loop over the files. -/
def noEntries (files : List File) : Entries :=
  ⟨[], [], fun _ => 0, sizeofHeader + sizeofEntry * files.length⟩

theorem filled_noEntries (files : List File) : Filled files 0 (noEntries files) :=
  ⟨rfl, rfl, rfl⟩

section

variable {w : World} {argv : List CString} {output : CString} {verbose : Bool} {files : List File}

theorem mkinitrd_eq
    (hargv : parseArguments argv ⟨none, false, []⟩
      = some ⟨some output, verbose, files.map (·.path)⟩)
    (hwritable : w.writable output = true) (hnonempty : files ≠ []) :
    mkinitrd w argv = match fillEntries (w.create output) files.length (files.map (·.path))
        (noEntries files) with
      | .undefined => .undefined
      | .error message => .failure message (w.create output)
      | .ok s => .success ((w.create output).write output (image s files.length)) := by
  have hlength : files.length ≠ 0 := fun h => hnonempty (List.length_eq_zero_iff.mp h)
  rw [mkinitrd, hargv]
  dsimp only
  rw [hwritable, Bool.not_true, if_neg Bool.false_ne_true, List.length_map, if_neg hlength]
  rfl

theorem not_refused_of_representable (hrep : Representable files) {i : Nat} {f : File}
    (hi : files[i]? = some f) : ¬ Refused files i f := by
  have hend : offsetOf files (i + 1) ≤ UINT32_MAX :=
    (offsetOf_mono (List.getElem?_eq_some_iff.mp hi).1).trans hrep.2
  rw [offsetOf_succ hi] at hend
  rw [Refused]
  omega

/-- The program does what it should do exactly when an image can have the files, or when
it refuses a file before a name runs past the entries. -/
theorem mkinitrd_roundTrips_iff
    (hargv : parseArguments argv ⟨none, false, []⟩
      = some ⟨some output, verbose, files.map (·.path)⟩)
    (hwritable : w.writable output = true) (hgiven : Given (w.create output) files) :
    RoundTrips w argv output files ↔ Representable files ∨
      ∃ i f, files[i]? = some f ∧ Refused files i f ∧
        ∀ j g, j ≤ i → files[j]? = some g → Fits files j g := by
  have hmain := mkinitrd_eq hargv hwritable hgiven.nonempty
  have herror := fillEntries_error_iff hgiven (List.drop_zero) (filled_noEntries files)
  constructor
  · rintro ⟨-, hfailure⟩
    by_cases hrep : Representable files
    · exact Or.inl hrep
    · obtain ⟨message, w', hexit⟩ := hfailure hrep
      rw [hmain] at hexit
      cases hfill : fillEntries (w.create output) files.length (files.map (·.path))
          (noEntries files) with
      | undefined =>
        rw [hfill] at hexit
        exact nomatch hexit
      | error message =>
        obtain ⟨i, f, -, hi, hrefused, hfits⟩ := herror.mp ⟨message, hfill⟩
        exact Or.inr ⟨i, f, hi, hrefused, fun j g => hfits j g (Nat.zero_le j)⟩
      | ok s =>
        rw [hfill] at hexit
        exact nomatch hexit
  · rintro (hrep | ⟨i, f, hi, hrefused, hfits⟩)
    · refine ⟨fun _ => ?_, fun hnot => absurd hrep hnot⟩
      obtain ⟨s, hfill, hs, htable⟩ := fillEntries_ok hgiven hrep.1
        (fun i f hi => not_refused_of_representable hrep hi) List.drop_zero
        (filled_noEntries files) (fun i f hi => absurd hi (Nat.not_lt_zero i))
      refine ⟨(w.create output).write output (image s files.length), image s files.length, ?_,
        if_pos rfl, holds_image hs htable hrep⟩
      rw [hmain, hfill]
    · refine ⟨fun hrep => absurd hrefused (not_refused_of_representable hrep hi), fun _ => ?_⟩
      obtain ⟨message, hfill⟩ :=
        herror.mpr ⟨i, f, Nat.zero_le i, hi, hrefused, fun j g _ => hfits j g⟩
      rw [hmain, hfill]
      exact ⟨message, _, rfl⟩

end

/-! ## One file -/

/-- A file named `a`. -/
def oneFile (bytes : List UInt8) : File := ⟨⟨[97], by decide⟩, bytes⟩

/-- The output `o`, and the file. -/
def oneWorld (bytes : List UInt8) : World where
  content p := if p = (oneFile bytes).path then some bytes else none
  writable _ := true

def oneOutput : CString := ⟨[111], by decide⟩

def oneArgv : List CString := [optionO, oneOutput, ⟨[97], by decide⟩]

theorem given_oneFile {bytes : List UInt8} (hbytes : bytes ≠ []) :
    Given ((oneWorld bytes).create oneOutput) [oneFile bytes] := by
  refine ⟨List.cons_ne_nil _ _, fun f hf => ?_, List.nodup_singleton _⟩
  obtain rfl : f = oneFile bytes := List.mem_singleton.mp hf
  exact ⟨rfl, hbytes⟩

theorem imageSize_oneFile (bytes : List UInt8) : imageSize [oneFile bytes] = 272 + bytes.length := by
  rw [imageSize, offsetOf]
  simp [oneFile, sizeofHeader, sizeofEntry]

/-- A file of the largest size does not fit behind its entry, and the program succeeds. -/
theorem mkinitrd_accepts_too_big :
    Given ((oneWorld (List.replicate UINT32_MAX 0)).create oneOutput)
        [oneFile (List.replicate UINT32_MAX 0)] ∧
      ¬ Representable [oneFile (List.replicate UINT32_MAX 0)] ∧
      ∃ w', mkinitrd (oneWorld (List.replicate UINT32_MAX 0)) oneArgv = .success w' := by
  obtain ⟨bytes, hbytes⟩ : ∃ bytes : List UInt8, bytes = List.replicate UINT32_MAX 0 := ⟨_, rfl⟩
  have hlength : bytes.length = UINT32_MAX := by rw [hbytes, List.length_replicate]
  rw [← hbytes]
  have hgiven : Given ((oneWorld bytes).create oneOutput) [oneFile bytes] := by
    apply given_oneFile
    rintro rfl
    exact absurd hlength (by decide)
  refine ⟨hgiven, fun hrep => ?_, ?_⟩
  · have hsize := hrep.2
    rw [imageSize_oneFile] at hsize
    omega
  · have hmain := @mkinitrd_eq (oneWorld bytes) oneArgv oneOutput false [oneFile bytes] rfl rfl
      (List.cons_ne_nil _ _)
    rw [hmain, List.map_singleton, List.length_singleton, fillEntries_cons]
    have hoffset : offsetOf [oneFile bytes] 0 = 272 := rfl
    rcases fillEntry_cases hgiven (f := oneFile bytes) (k := 0) rfl (filled_noEntries _) with
      ⟨hfits, -⟩ | ⟨-, hrefused, -⟩ | ⟨-, -, s, hdone, -⟩
    · exact absurd (by decide : 264 * 0 + (1 + 1) ≤ 264 * 1) hfits
    · rcases hrefused with hbig | hbig
      · rw [hoffset] at hbig
        exact absurd hbig (by decide)
      · exact absurd hbig (Nat.not_lt.mpr hlength.le)
    · rw [List.length_singleton] at hdone
      rw [hdone]
      exact ⟨_, rfl⟩

/-- A file of two bytes comes back. -/
theorem mkinitrd_roundTrips_two : RoundTrips (oneWorld [1, 2]) oneArgv oneOutput [oneFile [1, 2]] := by
  have hargv : parseArguments oneArgv ⟨none, false, []⟩
      = some ⟨some oneOutput, false, [oneFile [1, 2]].map (·.path)⟩ := rfl
  refine (mkinitrd_roundTrips_iff hargv rfl (given_oneFile (List.cons_ne_nil _ _))).mpr (Or.inl ?_)
  refine ⟨fun f hf => ?_, ?_⟩
  · obtain rfl : f = oneFile [1, 2] := List.mem_singleton.mp hf
    decide
  · rw [imageSize_oneFile]
    decide

end Xeos.InitRD
