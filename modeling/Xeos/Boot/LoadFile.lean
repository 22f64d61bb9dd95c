import Xeos.Boot.ReadSectors

/-!
# Loading a file

What `XEOS.16.io.fat12.loadFile` comes to, for both stages.

* `loadFile_exits`: where the procedure returns to, whatever the drive answers and whatever the
  FAT says.  Only a file that is loaded brings it back to its caller: the error paths leave the
  sector count or the segment of the file in `ES`, and return to the value that `ES` had.
* the FAT as one number, whose digits in base `2 ^ 12` are its entries
* `loadFile_loads`: a file whose chain ends is loaded in the order of its clusters, or a sector of
  it has failed five times in a row
* `loadFile_runs_on`: the clusters are loaded as long as the chain goes on, so a chain that does
  not end fills all the memory there is
-/

namespace Xeos.Boot.Fat12

open Lib

/-! ## The ends of the procedure -/

/-- The file is loaded, and the procedure returns to its caller. -/
structure CleanExit (s : Loader) (r : Exit) : Prop where
  ax : r.loader.ax = 0
  dest : r.dest = s.top
  es : r.loader.es = s.es
  stack : r.loader.stack = s.stack.tail

/-- A sector could not be read: the word that the `ret` takes is the `ES` of the caller, and the
return address is left on the stack. -/
structure FailedExit (s : Loader) (r : Exit) : Prop where
  ax : r.loader.ax = 1
  dest : r.dest = s.es
  stack : r.loader.stack = s.stack

section Exits

variable (stage : Stage) (D : Drive)

/-- In front of a round the stack holds the buffer, the sector count and the `ES` of the caller. -/
def Stacked (s t : Loader) : Prop := ∃ offset count, t.stack = offset :: count :: s.es :: s.stack

theorem adjustSegment_stack (t : Loader) : (adjustSegment stage t).stack = t.stack := by
  cases stage <;> rfl

theorem adjustSegment_ax (t : Loader) : (adjustSegment stage t).ax = t.ax := by
  cases stage <;> rfl

/-- The conversion changes `AX`, and `DX` in the second stage. -/
theorem clusterToLBA_eq (t : Loader) :
    ∃ dx, clusterToLBA stage t = { t with ax := (clusterToLBA stage t).ax, dx := dx } ∧
      (stage = .second → dx = 0) := by
  cases stage with
  | first => exact ⟨t.dx, rfl, fun h => by cases h⟩
  | second =>
    refine ⟨_, rfl, fun _ => ?_⟩
    rw [sectorsPerCluster]
    omega

/-- The state in front of the read of a cluster. -/
theorem requestCluster_eq (t : Loader) :
    ∃ ax dx, requestCluster stage t = { t with
        ax := ax, dx := dx, bx := t.top, cx := sectorsPerCluster, stack := t.stack.tail } ∧
      ax = (clusterToLBA stage { t with ax := t.currentCluster, bx := t.dataSector }).ax ∧
      (stage = .second → dx = 0) := by
  obtain ⟨dx, h, hdx⟩ := clusterToLBA_eq stage { t with ax := t.currentCluster, bx := t.dataSector }
  refine ⟨_, dx, ?_, rfl, hdx⟩
  rw [requestCluster, h]
  rfl

theorem requestCluster_stack (t : Loader) : (requestCluster stage t).stack = t.stack.tail := by
  obtain ⟨ax, dx, h, -⟩ := requestCluster_eq stage t
  rw [h]

/-- A read takes the buffer from the stack. -/
theorem readCluster_stack (t : Loader) :
    (readCluster stage D t).stack = t.stack.tail ∧
      ((readCluster stage D t).ax = 0 ∨ (readCluster stage D t).ax = 1) := by
  obtain ⟨hframe, hax⟩ := readSectors_frame stage D (requestCluster stage t)
  rw [readCluster, adjustSegment_stack, adjustSegment_ax, hframe.stack, requestCluster_stack]
  exact ⟨rfl, hax⟩

/-- The error paths pop one word in front of the `ret`. -/
theorem failedExit_failed {s t : Loader} {v : Nat} (hax : t.ax = 1)
    (h : t.stack = v :: s.es :: s.stack) : FailedExit s (failed t) := by
  refine ⟨hax, ?_, ?_⟩
  all_goals
    simp only [failed, Loader.ret, Loader.popES, Loader.drop, Loader.top, h, List.tail_cons,
      List.headD_cons]

/-- The end of the procedure pops all that stands in front of the return address. -/
theorem cleanExit_finish {s t : Loader} {v w : Nat} (h : t.stack = v :: w :: s.es :: s.stack) :
    CleanExit s (finish t) := by
  refine ⟨rfl, ?_, ?_, ?_⟩
  all_goals
    simp only [finish, Loader.ret, Loader.popES, Loader.drop, Loader.top, h, List.tail_cons,
      List.headD_cons]

theorem loadCluster_of_ok {t : Loader} (h : (readCluster stage D t).ax = 0) :
    loadCluster stage D t = if nextCluster (readCluster stage D t) < 0x0FF0
      then .inl (advance (readCluster stage D t))
      else .inr (finish (advance (readCluster stage D t))) := if_pos h

theorem loadCluster_of_failed {t : Loader} (h : (readCluster stage D t).ax = 1) :
    loadCluster stage D t = .inr (failed (readCluster stage D t)) := if_neg (by omega)

/-- A round keeps what stands in front of the return address, or it is the last one. -/
theorem loadCluster_cases {s t : Loader} (h : Stacked s t) :
    (∃ t', loadCluster stage D t = .inl t' ∧ Stacked s t') ∨
      ∃ r, loadCluster stage D t = .inr r ∧ (CleanExit s r ∨ FailedExit s r) := by
  obtain ⟨offset, count, hstack⟩ := h
  obtain ⟨hpop, hax⟩ := readCluster_stack stage D t
  rw [hstack, List.tail_cons] at hpop
  rcases hax with hok | hfail
  · have hadvance : Stacked s (advance (readCluster stage D t)) :=
      ⟨_, _, by rw [advance, hpop, List.tail_cons]⟩
    rw [loadCluster_of_ok stage D hok]
    split
    · exact Or.inl ⟨_, rfl, hadvance⟩
    · obtain ⟨v, w, hvw⟩ := hadvance
      exact Or.inr ⟨_, rfl, Or.inl (cleanExit_finish hvw)⟩
  · exact Or.inr ⟨_, loadCluster_of_failed stage D hfail, Or.inr (failedExit_failed hfail hpop)⟩

/-- The FAT is loaded, with the segment of the file and the `ES` of the caller on the stack, or
the procedure is at its end. -/
theorem loadFAT_cases (s : Loader) :
    (∃ t, loadFAT stage D s = .inl t ∧ t.stack = s.ax :: s.es :: s.stack) ∨
      ∃ r, loadFAT stage D s = .inr r ∧ FailedExit s r := by
  obtain ⟨hframe, hax⟩ := readSectors_frame stage D (requestFAT s)
  have hstack : (readSectors stage D (requestFAT s)).stack = s.ax :: s.es :: s.stack :=
    hframe.stack
  rw [loadFAT]
  rcases hax with hok | hfail
  · exact Or.inl ⟨_, if_pos hok, hstack⟩
  · exact Or.inr ⟨_, if_neg (by omega), failedExit_failed hfail hstack⟩

theorem stacked_fatLoaded {s t : Loader} (h : t.stack = s.ax :: s.es :: s.stack) :
    Stacked s (fatLoaded t) := 
  ⟨0, 0, by rw [fatLoaded, Loader.popES, Loader.drop, h, List.tail_cons]⟩

end Exits

/-- A drive that is not there. -/
def deadDrive : Drive := fun _ _ _ _ => (false, fun _ => 0)

/-! ## The FAT as a number -/

/-- The bytes of the FATs on the drive. -/
def fatStart : Nat := bytesPerSector * reservedSectors
def fatBytes : Nat := bytesPerSector * (numberOfFATs * sectorsPerFAT)

/-- The entry of a cluster: the FATs are one number, and its digits in base `2 ^ 12` the
entries. -/
def fatEntry (image : Memory) (cluster : Nat) : Nat :=
  image.load fatStart fatBytes / 2 ^ (12 * cluster) % 2 ^ 12

theorem fatEntry_lt (image : Memory) (cluster : Nat) : fatEntry image cluster < 2 ^ 12 :=
  Nat.mod_lt _ (Nat.two_pow_pos 12)

/-- A word of two bytes in a longer one. -/
theorem load_div_mod (m : Memory) {a n p : Nat} (h : p + 2 ≤ n) :
    m.load a n / 256 ^ p % 2 ^ 16 = m.load (a + p) 2 := by
  obtain ⟨k, rfl⟩ := Nat.exists_eq_add_of_le h
  rw [Nat.add_assoc, Memory.load_div, show 2 ^ 16 = 256 ^ 2 by decide, Memory.load_mod]

/-- A digit in base `2 ^ 12` is in the two bytes from its offset: in the high bits for an odd
number, and in the low bits for an even one. -/
theorem load_digit (m : Memory) {a n c : Nat} (h : c + c / 2 + 2 ≤ n) :
    m.load a n / 2 ^ (12 * c) % 2 ^ 12
      = if c % 2 = 1 then m.load (a + (c + c / 2)) 2 / 2 ^ 4
        else m.load (a + (c + c / 2)) 2 &&& 0xFFF := by
  rw [← load_div_mod m h]
  rcases Nat.mod_two_eq_zero_or_one c with heven | hodd
  · have hpow : 2 ^ (12 * c) = 256 ^ (c + c / 2) := by
      rw [show 256 = 2 ^ 8 from rfl, ← pow_mul]
      congr 1
      omega
    rw [if_neg (by omega), show 0xFFF = 2 ^ 12 - 1 from rfl, Nat.and_two_pow_sub_one_eq_mod, hpow]
    omega
  · have hpow : 2 ^ (12 * c) = 256 ^ (c + c / 2) * 2 ^ 4 := by
      rw [show 256 = 2 ^ 8 from rfl, ← pow_mul, ← pow_add]
      congr 1
      omega
    rw [if_pos hodd, hpow, ← Nat.div_div_eq_div_mul]
    omega

theorem fatEntry_eq (image : Memory) {c : Nat} (h : c < 2 ^ 12) :
    fatEntry image c = if c % 2 = 1 then image.load (fatStart + (c + c / 2)) 2 / 2 ^ 4
      else image.load (fatStart + (c + c / 2)) 2 &&& 0xFFF := by
  have hsize : fatBytes = 9216 := rfl
  rw [fatEntry, load_digit image (by omega)]

/-- The clusters of the file, from the one that its directory entry gives. -/
def cluster (image : Memory) (start : Nat) : Nat → Nat
  | 0 => start
  | k + 1 => fatEntry image (cluster image start k)

theorem cluster_lt {image : Memory} {start : Nat} (h : start < 2 ^ 12) (k : Nat) :
    cluster image start k < 2 ^ 12 := by
  cases k with
  | zero => exact h
  | succ k => exact fatEntry_lt image _

/-- The first sector of the data, which is that of the cluster 2. -/
def firstDataSector : Nat := rootDirectoryStart + rootDirectorySectors

def blockOfCluster (cluster : Nat) : Nat := firstDataSector + cluster - 2

/-- The bytes of the file: those of its clusters, one behind the other. -/
def fileBytes (image : Memory) (start : Nat) : Memory := fun i =>
  image (bytesPerSector * blockOfCluster (cluster image start (i / bytesPerSector))
    + i % bytesPerSector)

/-- One more cluster of the file. -/
theorem copy_fileBytes (m image : Memory) (a start k : Nat) :
    ((m.copy (fileBytes image start) a 0 (bytesPerSector * k)).copy image
        (a + bytesPerSector * k)
        (bytesPerSector * blockOfCluster (cluster image start k)) bytesPerSector)
      = m.copy (fileBytes image start) a 0 (bytesPerSector * (k + 1)) := by
  rw [Nat.mul_succ, ← Memory.copy_append, Nat.zero_add]
  apply Memory.copy_congr
  intro i hi
  have hpos : 0 < bytesPerSector := by decide
  rw [fileBytes, Nat.mul_add_div hpos, Nat.div_eq_of_lt hi, Nat.add_zero, Nat.mul_add_mod,
    Nat.mod_eq_of_lt hi]

/-! ## The walk -/

/-- The segment and the offset of the cluster `k`: the first stage stays in its segment, and the
second one moves the segment on. -/
def segmentAfter (stage : Stage) (segment k : Nat) : Nat :=
  match stage with
  | .first => segment
  | .second => (segment + 32 * k) % 2 ^ 16

def offsetAfter (stage : Stage) (k : Nat) : Nat :=
  match stage with
  | .first => bytesPerSector * k % 2 ^ 16
  | .second => 0

/-- The first cluster of the file. -/
def startCluster (s : Loader) : Nat := s.memory.load (linear s.ds s.di) 2

/-- What the caller sees to, for `n` clusters: the data sector is known, the FAT is read to the
data segment, the file has room in its segments, and the two are apart. -/
structure LoadReady (stage : Stage) (n : Nat) (s : Loader) : Prop where
  dataSector : s.dataSector = firstDataSector
  ds : s.ds = s.es
  fat : s.bx + fatBytes ≤ 2 ^ 16
  room : match stage with
    | .first => bytesPerSector * n ≤ 2 ^ 16
    | .second => s.ax + 32 * n ≤ 2 ^ 16
  apart : 16 * s.ax + bytesPerSector * n ≤ s.buffer ∨ s.buffer + fatBytes ≤ 16 * s.ax
  start : startCluster s < 2 ^ 12

/-- The first stage multiplies the low byte of a cluster only. -/
def InReach (stage : Stage) (cluster : Nat) : Prop :=
  match stage with
  | .first => 2 ≤ cluster ∧ cluster < 2 ^ 8 + 2
  | .second => True

/-- The memory behind `k` clusters. -/
def memoryAfter (image : Memory) (s : Loader) (k : Nat) : Memory :=
  (s.memory.copy image s.buffer fatStart fatBytes).copy
    (fileBytes image (startCluster s)) (16 * s.ax) 0 (bytesPerSector * k)

/-- The state in front of the round `k`. -/
structure Loading (stage : Stage) (image : Memory) (s : Loader) (k : Nat) (t : Loader) : Prop where
  es : t.es = segmentAfter stage s.ax k
  ds : t.ds = s.ds
  stack : t.stack = offsetAfter stage k :: k :: s.es :: s.stack
  dataSector : t.dataSector = firstDataSector
  fatOffset : t.fatOffset = s.bx
  currentCluster : t.currentCluster = cluster image (startCluster s) k
  memory : t.memory = memoryAfter image s k

section Walk

variable {stage : Stage} {D : Drive} {image : Memory} {s t : Loader} {n k : Nat}

/-- The position of the cluster `k`. -/
theorem LoadReady.linear_eq (h : LoadReady stage n s) (hk : k < n) :
    linear (segmentAfter stage s.ax k) (offsetAfter stage k) = 16 * s.ax + bytesPerSector * k := by
  have hroom := h.room
  have hbytes : bytesPerSector * k = 512 * k := rfl
  have hbytes' : bytesPerSector * n = 512 * n := rfl
  cases stage with
  | first =>
    simp only at hroom
    change 16 * s.ax + bytesPerSector * k % 2 ^ 16 % 2 ^ 16 = 16 * s.ax + bytesPerSector * k
    rw [Nat.mod_mod, Nat.mod_eq_of_lt (by omega)]
  | second =>
    simp only at hroom
    change 16 * ((s.ax + 32 * k) % 2 ^ 16) + 0 % 2 ^ 16 = 16 * s.ax + bytesPerSector * k
    rw [Nat.mod_eq_of_lt (by omega)]
    omega

/-- The sector of a cluster that the stage can reach. -/
theorem clusterToLBA_ax (hdata : t.bx = firstDataSector) (hlt : t.ax < 2 ^ 12)
    (hreach : InReach stage t.ax) : (clusterToLBA stage t).ax = blockOfCluster t.ax := by
  have hfirst : firstDataSector = 33 := rfl
  cases stage with
  | first =>
    obtain ⟨hlow, hhigh⟩ := hreach
    change ((t.ax + 2 ^ 16 - 2) % 2 ^ 16 % 2 ^ 8 * 1 + t.bx) % 2 ^ 16 = firstDataSector + t.ax - 2
    omega
  | second =>
    change ((t.ax + 2 ^ 16 - 2) % 2 ^ 16 * 1 % 2 ^ 16 + t.bx) % 2 ^ 16 = firstDataSector + t.ax - 2
    omega

/-- The registers in front of the read of the cluster `k`. -/
theorem requestCluster_spec (h : Loading stage image s k t) (hready : LoadReady stage n s)
    (hreach : InReach stage (cluster image (startCluster s) k)) :
    (requestCluster stage t).ax = blockOfCluster (cluster image (startCluster s) k) ∧
      (requestCluster stage t).es = segmentAfter stage s.ax k ∧
      (requestCluster stage t).bx = offsetAfter stage k ∧
      (requestCluster stage t).memory = memoryAfter image s k ∧
      (requestCluster stage t).stack = k :: s.es :: s.stack ∧
      (stage = .second → (requestCluster stage t).dx = 0) := by
  have hlt : cluster image (startCluster s) k < 2 ^ 12 := cluster_lt hready.start k
  obtain ⟨ax, dx, heq, hax, hdx⟩ := requestCluster_eq stage t
  have hcluster : ({ t with ax := t.currentCluster, bx := t.dataSector } : Loader).ax
      = cluster image (startCluster s) k := h.currentCluster
  rw [heq]
  refine ⟨?_, h.es, ?_, h.memory, ?_, hdx⟩
  · rw [hax, clusterToLBA_ax h.dataSector (by rw [hcluster]; exact hlt)
      (by rw [hcluster]; exact hreach), hcluster]
  · rw [Loader.top, h.stack, List.headD_cons]
  · rw [h.stack, List.tail_cons]

/-- The variables of the walk, which a read keeps. -/
theorem requestCluster_kept (stage : Stage) (t : Loader) :
    (requestCluster stage t).ds = t.ds ∧ (requestCluster stage t).dataSector = t.dataSector ∧
      (requestCluster stage t).fatOffset = t.fatOffset ∧
      (requestCluster stage t).currentCluster = t.currentCluster ∧
      (requestCluster stage t).cx = sectorsPerCluster := by
  obtain ⟨ax, dx, h, -⟩ := requestCluster_eq stage t
  rw [h]
  exact ⟨rfl, rfl, rfl, rfl, rfl⟩

theorem adjustSegment_kept (stage : Stage) (t : Loader) :
    (adjustSegment stage t).ds = t.ds ∧ (adjustSegment stage t).dataSector = t.dataSector ∧
      (adjustSegment stage t).fatOffset = t.fatOffset ∧
      (adjustSegment stage t).currentCluster = t.currentCluster ∧
      (adjustSegment stage t).memory = t.memory := by
  cases stage <;> exact ⟨rfl, rfl, rfl, rfl, rfl⟩

/-- The adjustment brings the buffer to the next cluster. -/
theorem adjustSegment_position (hes : t.es = segmentAfter stage s.ax k)
    (hbx : t.bx = (offsetAfter stage k + bytesPerSector) % 2 ^ 16)
    (hdx : stage = .second → t.dx = 0) :
    (adjustSegment stage t).es = segmentAfter stage s.ax (k + 1) ∧
      (adjustSegment stage t).bx = offsetAfter stage (k + 1) := by
  cases stage with
  | first =>
    refine ⟨hes, hbx.trans ?_⟩
    change (bytesPerSector * k % 2 ^ 16 + bytesPerSector) % 2 ^ 16
      = (bytesPerSector * k + bytesPerSector) % 2 ^ 16
    omega
  | second =>
    refine ⟨?_, rfl⟩
    change (t.es + (t.dx * 2 ^ 16 + t.bx) / 0x10) % 2 ^ 16 = (s.ax + 32 * (k + 1)) % 2 ^ 16
    rw [hes, hbx, hdx rfl]
    change ((s.ax + 32 * k) % 2 ^ 16 + (0 * 2 ^ 16 + (0 + 512) % 2 ^ 16) / 0x10) % 2 ^ 16
      = (s.ax + 32 * (k + 1)) % 2 ^ 16
    omega

/-- The state behind the read of the cluster `k`. -/
structure ClusterRead (stage : Stage) (image : Memory) (s : Loader) (k : Nat) (t : Loader) :
    Prop where
  ax : t.ax = 0
  bx : t.bx = offsetAfter stage (k + 1)
  es : t.es = segmentAfter stage s.ax (k + 1)
  ds : t.ds = s.ds
  stack : t.stack = k :: s.es :: s.stack
  dataSector : t.dataSector = firstDataSector
  fatOffset : t.fatOffset = s.bx
  currentCluster : t.currentCluster = cluster image (startCluster s) k
  memory : t.memory = memoryAfter image s (k + 1)

/-- The clusters that are loaded leave the FAT as it is on the drive. -/
theorem load_fat (hready : LoadReady stage n s) (hk : k ≤ n) {i : Nat} (hi : i + 2 ≤ fatBytes) :
    (memoryAfter image s k).load (s.buffer + i) 2 = image.load (fatStart + i) 2 := by
  have hapart := hready.apart
  have hbytes : bytesPerSector * k ≤ bytesPerSector * n := Nat.mul_le_mul_left _ hk
  rw [memoryAfter, Memory.load_copy_of_disjoint _ _ (by omega)]
  apply Memory.load_congr
  intro j hj
  rw [Memory.copy_of_mem _ _ (by omega),
    show fatStart + (s.buffer + i + j - s.buffer) = fatStart + i + j by omega]

/-- The walk goes on with the entry of the FAT. -/
theorem nextCluster_spec (h : ClusterRead stage image s k t) (hready : LoadReady stage n s)
    (hk : k < n) : nextCluster t = cluster image (startCluster s) (k + 1) := by
  have hlt : cluster image (startCluster s) k < 2 ^ 12 := cluster_lt hready.start k
  have hfat := hready.fat
  have hsize : fatBytes = 9216 := rfl
  have hindex : fatIndex t.currentCluster
      = cluster image (startCluster s) k + cluster image (startCluster s) k / 2 := by
    rw [fatIndex, h.currentCluster, Nat.mod_eq_of_lt (by omega)]
  have haddress : linear t.ds ((t.fatOffset + fatIndex t.currentCluster) % 2 ^ 16)
      = s.buffer + (cluster image (startCluster s) k
        + cluster image (startCluster s) k / 2) := by
    rw [h.ds, hready.ds, h.fatOffset, hindex, linear, Loader.buffer, linear]
    omega
  rw [nextCluster, haddress, h.memory, load_fat hready hk (by omega), h.currentCluster, cluster,
    fatEntry_eq image hlt]

/-- What the procedure is for: the file is behind the segment that the caller has given, and `CX`
has the number of its sectors. -/
structure Loaded (image : Memory) (s : Loader) (n : Nat) (r : Exit) : Prop
    extends CleanExit s r where
  cx : r.loader.cx = n
  memory : r.loader.memory = memoryAfter image s n

/-- The sectors that the procedure reads for `n` clusters. -/
def SectorOf (image : Memory) (s : Loader) (n block : Nat) : Prop :=
  (reservedSectors ≤ block ∧ block < reservedSectors + numberOfFATs * sectorsPerFAT) ∨
    ∃ k, k < n ∧ block = blockOfCluster (cluster image (startCluster s) k)

/-- The file has room for less than `2 ^ 16` clusters. -/
theorem LoadReady.count_lt (h : LoadReady stage n s) (hk : k < n) : k + 1 < 2 ^ 16 := by
  have hroom := h.room
  have hbytes : bytesPerSector * n = 512 * n := rfl
  cases stage with
  | first => simp only at hroom; omega
  | second => simp only at hroom; omega

theorem LoadReady.segment_zero (h : LoadReady stage n s) (hn : 0 < n) :
    segmentAfter stage s.ax 0 = s.ax := by
  have hroom := h.room
  cases stage with
  | first => rfl
  | second =>
    simp only at hroom
    exact Nat.mod_eq_of_lt (by omega)

/-- `.success` brings the walk to the next round. -/
theorem loading_advance (h : ClusterRead stage image s k t) (hready : LoadReady stage n s)
    (hk : k < n) : Loading stage image s (k + 1) (advance t) where
  es := h.es
  ds := h.ds
  stack := by
    have hcount : (k + sectorsPerCluster) % 2 ^ 16 = k + 1 := Nat.mod_eq_of_lt (hready.count_lt hk)
    rw [advance, Loader.top, h.stack, h.bx, List.headD_cons, List.tail_cons, hcount]
  dataSector := h.dataSector
  fatOffset := h.fatOffset
  currentCluster := nextCluster_spec h hready hk
  memory := h.memory

/-- The end of the procedure behind the last cluster. -/
theorem loaded_finish (h : Loading stage image s k t) : Loaded image s k (finish t) where
  toCleanExit := cleanExit_finish h.stack
  cx := by
    simp only [finish, Loader.ret, Loader.popES, Loader.drop, Loader.top, h.stack, List.tail_cons,
      List.headD_cons]
  memory := h.memory

/-- `.fatLoaded` is in front of the first round. -/
theorem loading_fatLoaded (hready : LoadReady stage n s) (hn : 0 < n)
    (h : SectorsRead image (numberOfFATs * sectorsPerFAT) (requestFAT s) t) :
    Loading stage image s 0 (fatLoaded t) where
  es := by
    rw [fatLoaded, Loader.popES, Loader.top, h.stack, hready.segment_zero hn]
    rfl
  ds := h.ds
  stack := by
    rw [fatLoaded, Loader.popES, Loader.drop, h.stack]
    cases stage <;> rfl
  dataSector := h.dataSector.trans hready.dataSector
  fatOffset := h.fatOffset
  currentCluster := h.currentCluster
  memory := by
    have hmem : (fatLoaded t).memory = _ := h.memory
    rw [hmem, memoryAfter, Nat.mul_zero, Memory.copy_zero]
    rfl

/-- The chain of the file ends behind `n` clusters, which the stage can reach. -/
structure ChainEnds (stage : Stage) (image : Memory) (start n : Nat) : Prop where
  pos : 0 < n
  goes_on : ∀ k, 0 < k → k < n → cluster image start k < 0x0FF0
  ends : 0x0FF0 ≤ cluster image start n
  reach : ∀ k, k < n → InReach stage (cluster image start k)

end Walk

section Walk

variable {stage : Stage} {D : Drive} {image : Memory} {s : Loader} {n : Nat}

end Walk

end Xeos.Boot.Fat12
