import HrppBoot.Fat.Directory
import HrppBoot.Lib.Recurrence
import Mathlib.Data.List.TakeWhile

/-!
# Searches that end

The loops over the clusters of a directory end at an entry of the table that is no cluster number,
at a read that fails or at an entry that decides the search. Nothing counts the clusters: a chain
that comes back to a cluster is followed for ever. A search has finitely many states, so that this
is the only way not to end.
-/

namespace HrppBoot.Fat

open ByteMemory Recurrence

/-! ## States -/

/-- Two memories have the same bytes from an address on. -/
def Near (bound : Nat) (base m : Memory) : Prop := ∀ i, bound ≤ i → m i = base i

theorem byte_finite : Finite UInt8 :=
  Finite.of_injective (fun byte : UInt8 => byte.toFin) fun _ _ same => UInt8.toFin_inj.mp same

theorem near_finite (bound : Nat) (base : Memory) : {m | Near bound base m}.Finite := by
  have := byte_finite
  let extend (low : Fin bound → UInt8) : Memory := fun i =>
    if inside : i < bound then low ⟨i, inside⟩ else base i
  apply (Set.finite_range extend).subset
  intro m near
  refine ⟨fun i => m i, ?_⟩
  funext i
  by_cases inside : i < bound
  · simp only [extend, inside, ↓reduceDIte]
  · simp only [extend, inside, ↓reduceDIte]
    exact (near i (Nat.le_of_not_lt inside)).symm

theorem Near.store {bound dst : Nat} {base m : Memory} {bytes : List UInt8}
    (near : Near bound base m) (fits : dst + bytes.length ≤ bound) :
    Near bound base (m.store dst bytes) := by
  intro i behind
  rw [Memory.store_outside _ _ _ _ (.inr (Nat.le_trans fits behind))]
  exact near i behind

theorem reads_bounded (disk : DiskRead) (blocks counts : Nat) :
    ∃ most, ∀ block ≤ blocks, ∀ count ≤ counts, (disk block count).2.length ≤ most := by
  let places := Finset.range (blocks + 1) ×ˢ Finset.range (counts + 1)
  refine ⟨places.sup fun place => (disk place.1 place.2).2.length, ?_⟩
  intro block low count short
  have member : (block, count) ∈ places := by
    simp only [places, Finset.mem_product, Finset.mem_range]
    omega
  exact Finset.le_sup (f := fun place : Nat × Nat => (disk place.1 place.2).2.length) member

/-- What bounds the states of a search: the largest cluster number, and the most bytes that a read
of the table returns. -/
structure Bounds (disk : DiskRead) (mydata : Fsdata) where
  clusters : Nat
  most : Nat
  reads : ∀ block ≤ clusters * fatbufBlocks + mydata.fatSect, ∀ count ≤ 2 ^ 32,
    (disk block count).2.length ≤ most
  /-- The numbers that `CHECK_CLUST` lets pass are below. -/
  checked : 0xffffff0 ≤ clusters

theorem exists_bounds (disk : DiskRead) (mydata : Fsdata) (start bytes : Nat) :
    ∃ bounds : Bounds disk mydata, start ≤ bounds.clusters ∧ bytes ≤ bounds.most := by
  obtain ⟨most, reads⟩ :=
    reads_bounded disk (max start 0xffffff0 * fatbufBlocks + mydata.fatSect) (2 ^ 32)
  refine ⟨⟨max start 0xffffff0, max most bytes, ?_, Nat.le_max_right _ _⟩, Nat.le_max_left _ _,
    Nat.le_max_right _ _⟩
  intro block low count short
  exact Nat.le_trans (reads block low count short) (Nat.le_max_left _ _)

section Within

variable {disk : DiskRead} {mydata : Fsdata} (bounds : Bounds disk mydata) (base : Memory)

/-- The buffer of the table is within the bounds. -/
structure CacheWithin (cache : FatCache) : Prop where
  near : Near bounds.most base cache.fatbuf
  number : ∀ n, cache.fatbufnum = some n → n ≤ bounds.clusters

theorem cacheWithin_finite : {cache | CacheWithin bounds base cache}.Finite := by
  have numbers : {number : Option Nat | ∀ n, number = some n → n ≤ bounds.clusters}.Finite := by
    apply ((Set.finite_le_nat bounds.clusters).image some |>.insert none).subset
    intro number below
    cases number with
    | none => exact .inl rfl
    | some n => exact .inr ⟨n, below n rfl, rfl⟩
  apply ((near_finite bounds.most base).image2 FatCache.mk numbers).subset
  intro cache within
  exact ⟨cache.fatbuf, within.near, cache.fatbufnum, within.number, rfl⟩

variable {bounds base} {cache : FatCache} {entry : Nat}

theorem getFatent_within (within : CacheWithin bounds base cache) (low : entry ≤ bounds.clusters) :
    CacheWithin bounds base (getFatent disk mydata cache entry).2 := by
  have numbered : entry / mydata.bufEntries ≤ bounds.clusters :=
    Nat.le_trans (Nat.div_le_self _ _) low
  have place := Nat.mul_le_mul_right fatbufBlocks numbered
  have stored (count : Nat) (short : count ≤ 2 ^ 32) : Near bounds.most base (cache.fatbuf.store 0
      (disk (entry / mydata.bufEntries * fatbufBlocks + mydata.fatSect) count).2) := by
    apply within.near.store
    rw [Nat.zero_add]
    exact bounds.reads _ (by omega) _ short
  have asked : (if mydata.fatlength.toNat < entry / mydata.bufEntries * fatbufBlocks + fatbufBlocks
      then (mydata.fatlength - UInt32.ofNat (entry / mydata.bufEntries * fatbufBlocks)).toNat
      else fatbufBlocks) ≤ 2 ^ 32 := by
    split
    · exact (UInt32.toNat_lt _).le
    · unfold fatbufBlocks
      omega
  simp only [getFatent]
  split
  · exact within
  · generalize (if mydata.fatlength.toNat < entry / mydata.bufEntries * fatbufBlocks + fatbufBlocks
      then (mydata.fatlength - UInt32.ofNat (entry / mydata.bufEntries * fatbufBlocks)).toNat
      else fatbufBlocks) = count at asked
    split
    · exact ⟨stored count asked, within.number⟩
    · refine ⟨stored count asked, ?_⟩
      rintro n ⟨⟩
      exact numbered

theorem checked_low {x : Nat} {fatsize : FatSize} (valid : checkClust x fatsize = false) :
    x ≤ bounds.clusters := by
  have high := bounds.checked
  unfold checkClust at valid
  rw [decide_eq_false_iff_not, not_or] at valid
  cases fatsize <;> simp only at valid <;> omega

/-- What a turn over an entry that does not decide the search changes. -/
structure Moved (bounds : Bounds disk mydata) (base : Memory) (scan after : Scan) : Prop where
  dentptr : after.dentptr = scan.dentptr + direntSize
  cache : CacheWithin bounds base scan.cache → CacheWithin bounds base after.cache
  block : ∀ bound, after.dentptr ≤ bound → Near bound Memory.blank scan.block →
    Near bound Memory.blank after.block

theorem moved_skip (scan : Scan) :
    Moved bounds base scan { scan with dentptr := scan.dentptr + direntSize } :=
  ⟨rfl, id, fun _ _ near => near⟩

variable {curclust retdent start : Nat} {cluster : Memory} {vfat : Vfatname} {name : List UInt8}
  {scan after : Scan}

theorem finishVfatname_moved {slotptr : Nat} {realdent : Record} {behind : List UInt8}
    (length : realdent.length = direntSize)
    (ran : finishVfatname cluster slotptr retdent realdent behind cache = some vfat) :
    vfat.cache = cache ∧ ∀ bound, retdent + direntSize ≤ bound →
      Near bound Memory.blank cluster → Near bound Memory.blank vfat.cluster := by
  unfold finishVfatname at ran
  split at ran
  · cases ran
  · split at ran
    · cases ran
    · cases ran
      refine ⟨rfl, ?_⟩
      intro bound low near
      exact near.store (by rwa [length])

/-- `get_vfatname` keeps the buffer of the table within the bounds, and writes one entry. -/
theorem getVfatname_moved (low : curclust ≤ bounds.clusters)
    (ran : getVfatname disk mydata cache curclust cluster start retdent = some vfat) :
    (CacheWithin bounds base cache → CacheWithin bounds base vfat.cache) ∧
      ∀ bound, retdent + direntSize ≤ bound →
        Near bound Memory.blank cluster → Near bound Memory.blank vfat.cluster := by
  have loaded (m : Memory) (src : Nat) : (m.load src direntSize).length = direntSize := by
    simp [Memory.load]
  simp only [getVfatname] at ran
  generalize start + mydata.sectSize * (if curclust = 0 then prefetchBlocks else mydata.clustSize) =
    buflimit at ran
  split at ran
  · cases ran
    exact ⟨id, fun _ _ near => near⟩
  split at ran
  · cases ran
    exact ⟨id, fun _ _ near => near⟩
  split at ran
  · obtain ⟨same, written⟩ := finishVfatname_moved (loaded _ _) ran
    exact ⟨fun within => same ▸ within, written⟩
  split at ran
  · cases ran
    exact ⟨id, fun _ _ near => near⟩
  have kept (within : CacheWithin bounds base cache) := getFatent_within within low
  split at ran
  · cases ran
    exact ⟨kept, fun _ _ near => near⟩
  split at ran
  · cases ran
    exact ⟨kept, fun _ _ near => near⟩
  split at ran
  · cases ran
    exact ⟨kept, fun _ _ near => near⟩
  · obtain ⟨same, written⟩ := finishVfatname_moved (loaded _ _) ran
    exact ⟨fun within => same ▸ kept within, written⟩

theorem compareEntry_more {isdir : Bool} {lName : List UInt8}
    (ran : compareEntry name isdir scan lName = .more after) :
    after = { scan with dentptr := scan.dentptr + direntSize } := by
  simp only [compareEntry] at ran
  split at ran
  · cases ran
    rfl
  · split at ran <;> cases ran

theorem moved_vfat {isdir : Bool} (low : curclust ≤ bounds.clusters)
    (read : getVfatname disk mydata scan.cache curclust scan.block start scan.dentptr = some vfat)
    (ran : compareEntry name isdir ⟨vfat.cluster, scan.dentptr, vfat.cache⟩ vfat.lName =
      .more after) : Moved bounds base scan after := by
  obtain ⟨cache, block⟩ := @getVfatname_moved _ _ bounds base _ _ _ _ _ _ low read
  rw [compareEntry_more ran]
  exact ⟨rfl, cache, block⟩

theorem rootEntry_moved {isdir : Bool} (low : curclust ≤ bounds.clusters)
    (ran : rootEntry disk mydata name isdir curclust start scan = .more after) :
    Moved bounds base scan after := by
  simp only [rootEntry] at ran
  split at ran
  · cases ran
    exact moved_skip scan
  split at ran
  · split at ran
    · split at ran
      · cases ran
      · rename_i read
        exact moved_vfat low read ran
    · cases ran
      exact moved_skip scan
  split at ran
  · cases ran
  · rw [compareEntry_more ran]
    exact moved_skip scan

theorem subEntry_moved (low : curclust ≤ bounds.clusters)
    (ran : subEntry disk mydata name curclust scan = .more after) :
    Moved bounds base scan after := by
  simp only [subEntry] at ran
  split at ran
  · cases ran
    exact moved_skip scan
  split at ran
  · split at ran
    · split at ran
      · cases ran
      · rename_i read
        split at ran
        · cases ran
        · exact moved_vfat low read ran
    · cases ran
      exact moved_skip scan
  split at ran
  · cases ran
  · rw [compareEntry_more ran]
    exact moved_skip scan

theorem rootEntries_moved {isdir : Bool} {entries : Nat} (low : curclust ≤ bounds.clusters)
    (ran : rootEntries disk mydata name isdir curclust start entries scan = .more after) :
    after.dentptr = scan.dentptr + entries * direntSize ∧
      (CacheWithin bounds base scan.cache → CacheWithin bounds base after.cache) ∧
      ∀ bound, after.dentptr ≤ bound → Near bound Memory.blank scan.block →
        Near bound Memory.blank after.block := by
  induction entries generalizing scan with
  | zero =>
    cases ran
    exact ⟨by omega, id, fun _ _ near => near⟩
  | succ entries ih =>
    simp only [rootEntries] at ran
    split at ran
    · rename_i next step
      have moved : Moved bounds base scan next := rootEntry_moved low step
      obtain ⟨dentptr, cache, block⟩ := ih ran
      have further := moved.dentptr
      refine ⟨by rw [dentptr, further]; unfold direntSize; omega,
        fun within => cache (moved.cache within), ?_⟩
      intro bound ends near
      exact block bound ends (moved.block bound (by omega) near)
    · rename_i other
      exact absurd ran (other after)

theorem subEntries_within {entries : Nat} (low : curclust ≤ bounds.clusters)
    (ran : subEntries disk mydata name curclust entries scan = .more after)
    (within : CacheWithin bounds base scan.cache) : CacheWithin bounds base after.cache := by
  induction entries generalizing scan with
  | zero =>
    cases ran
    exact within
  | succ entries ih =>
    simp only [subEntries] at ran
    split at ran
    · rename_i next step
      have moved : Moved bounds base scan next := subEntry_moved low step
      exact ih ran (moved.cache within)
    · rename_i other
      exact absurd ran (other after)

end Within

/-! ## Sub-directories -/

/-- A turn of the loop of `get_dentfromdir` that is not the last: the cluster can be read, none of
its entries decides the search, and its entry of the table is a cluster number. -/
def subStep (disk : DiskRead) (mydata : Fsdata) (name : List UInt8) (state : Nat × FatCache) :
    Option (Nat × FatCache) :=
  let (ok, block) := getCluster disk mydata state.1 0 mydata.bytesperclust Memory.blank
  if !ok then none
  else
    match subEntries disk mydata name state.1 (mydata.bytesperclust / direntSize)
      ⟨block, 0, state.2⟩ with
    | .more scan =>
      let next := getFatent disk mydata scan.cache state.1
      if checkClust next.1 mydata.fatsize then none else some next
    | _ => none

section Sub

variable {disk : DiskRead} {mydata : Fsdata} {name : List UInt8} {curclust : Nat} {cache : FatCache}

/-- `get_dentfromdir` runs this loop. -/
theorem getDentfromdir_fuelled : Fuelled (subStep disk mydata name)
    fun fuel state => getDentfromdir disk mydata name fuel state.1 state.2 := by
  constructor
  · intro state
    rfl
  · intro state last
    simp only [subStep] at last
    simp only [getDentfromdir]
    split
    · exact ⟨_, fun _ => rfl⟩
    rename_i readable
    rw [if_neg readable] at last
    split
    · exact ⟨_, fun _ => rfl⟩
    · exact ⟨_, fun _ => rfl⟩
    · exact ⟨_, fun _ => rfl⟩
    · rename_i more
      simp only [more] at last
      split
      · exact ⟨_, fun _ => rfl⟩
      · rename_i valid
        rw [if_neg valid] at last
        cases last
  · intro n state next turn
    simp only [subStep] at turn
    simp only [getDentfromdir]
    split at turn
    · cases turn
    rename_i readable
    rw [if_neg readable]
    split at turn
    · rename_i more
      simp only [more]
      split at turn
      · cases turn
      · rename_i valid
        rw [if_neg valid]
        cases turn
        rfl
    · cases turn

theorem getDentfromdir_mono {fuel more : Nat} (enough : fuel ≤ more) {result : ScanEnd Empty}
    (ran : getDentfromdir disk mydata name fuel curclust cache = some result) :
    getDentfromdir disk mydata name more curclust cache = some result :=
  @Fuelled.mono _ _ _ (curclust, cache) _ getDentfromdir_fuelled _ _ enough _ ran

theorem subStep_within {bounds : Bounds disk mydata} {base : Memory} {state next : Nat × FatCache}
    (low : state.1 ≤ bounds.clusters) (within : CacheWithin bounds base state.2)
    (turn : Turn (subStep disk mydata name) state next) :
    next.1 ≤ bounds.clusters ∧ CacheWithin bounds base next.2 := by
  simp only [Turn, subStep] at turn
  split at turn
  · cases turn
  split at turn
  · rename_i scan more
    split at turn
    · cases turn
    · rename_i valid
      cases turn
      exact ⟨checked_low (Bool.eq_false_iff.mpr valid),
        getFatent_within (subEntries_within low more within) low⟩
  · cases turn

theorem getDentfromdir_ends_iff :
    (∃ fuel, getDentfromdir disk mydata name fuel curclust cache ≠ none) ↔
      ¬Circles (subStep disk mydata name) (curclust, cache) := by
  apply Iff.trans (@Fuelled.ends_iff _ _ _ (curclust, cache) _ getDentfromdir_fuelled)
  obtain ⟨bounds, low, -⟩ := exists_bounds disk mydata (max curclust (cache.fatbufnum.getD 0)) 0
  have numbers : {c | c ≤ bounds.clusters}.Finite := Set.finite_le_nat _
  have caches := cacheWithin_finite bounds cache.fatbuf
  apply stops_iff_not_circles (numbers.prod caches)
  · refine ⟨Nat.le_trans (Nat.le_max_left _ _) low, fun _ _ => rfl, ?_⟩
    intro n known
    rw [show cache.fatbufnum = some n from known, Option.getD_some] at low
    exact Nat.le_trans (Nat.le_max_right _ _) low
  · rintro state next ⟨small, within⟩ turn
    exact subStep_within small within turn

end Sub

/-! ## The root directory -/

/-- A turn of the loop over the sectors of the root directory that is not the last. -/
def rootStep (disk : DiskRead) (mydata : Fsdata) (rootdirSize : Nat) (name : List UInt8)
    (isdir : Bool) (root : RootScan) : Option RootScan :=
  match rootFetch disk mydata root with
  | none => none
  | some (dirPtr, scan) =>
    match rootEntries disk mydata name isdir root.rootCluster dirPtr mydata.direntsPerBlock scan with
    | .more scan => rootAdvance disk mydata rootdirSize { root with scan := scan }
    | _ => none

section Root

variable {disk : DiskRead} {mydata : Fsdata} {rootdirSize : Nat} {name : List UInt8} {isdir : Bool}
  {root next : RootScan}

/-- The search of the root directory runs this loop. -/
theorem rootLoop_fuelled : Fuelled (rootStep disk mydata rootdirSize name isdir)
    (rootLoop disk mydata rootdirSize name isdir) := by
  constructor
  · intro root
    rfl
  · intro root last
    simp only [rootStep] at last
    simp only [rootLoop]
    cases fetched : rootFetch disk mydata root with
    | none => exact ⟨_, fun _ => rfl⟩
    | some found =>
      obtain ⟨dirPtr, scan⟩ := found
      simp only [fetched] at last
      simp only
      cases entries : rootEntries disk mydata name isdir root.rootCluster dirPtr
          mydata.direntsPerBlock scan with
      | found dent cache => exact ⟨_, fun _ => rfl⟩
      | absent => exact ⟨_, fun _ => rfl⟩
      | wild => exact ⟨_, fun _ => rfl⟩
      | more after =>
        simp only [entries] at last
        simp only [last]
        exact ⟨_, fun _ => rfl⟩
  · intro n root next turn
    simp only [rootStep] at turn
    simp only [rootLoop]
    cases fetched : rootFetch disk mydata root with
    | none =>
      rw [fetched] at turn
      cases turn
    | some found =>
      obtain ⟨dirPtr, scan⟩ := found
      simp only [fetched] at turn
      simp only
      cases entries : rootEntries disk mydata name isdir root.rootCluster dirPtr
          mydata.direntsPerBlock scan with
      | more after =>
        simp only [entries] at turn
        simp only [turn]
      | found dent cache =>
        rw [entries] at turn
        cases turn
      | absent =>
        rw [entries] at turn
        cases turn
      | wild =>
        rw [entries] at turn
        cases turn

theorem rootStep_cases (turn : Turn (rootStep disk mydata rootdirSize name isdir) root next) :
    ∃ dirPtr fetched after, rootFetch disk mydata root = some (dirPtr, fetched) ∧
      rootEntries disk mydata name isdir root.rootCluster dirPtr mydata.direntsPerBlock fetched =
        .more after ∧
      rootAdvance disk mydata rootdirSize { root with scan := after } = some next := by
  simp only [Turn, rootStep] at turn
  split at turn
  · cases turn
  rename_i dirPtr fetched fetch
  split at turn
  · rename_i after more
    exact ⟨dirPtr, fetched, after, fetch, more, turn⟩
  · cases turn

/-- The bounds of the search of a FAT32 root directory. -/
structure RootWithin (bounds : Bounds disk mydata) (sectors : Nat) (root : RootScan) : Prop where
  cache : CacheWithin bounds Memory.blank root.scan.cache
  block : Near bounds.most Memory.blank root.scan.block
  cursect : root.cursect ≤ sectors
  cluster : root.rootCluster ≤ bounds.clusters
  count : root.bufferBlkCnt < mydata.clustSize
  dentptr : root.scan.dentptr ≤ mydata.bytesperclust
  place : root.bufferBlkCnt ≠ 0 → root.scan.dentptr ≤ root.bufferBlkCnt * mydata.sectSize

theorem rootWithin_finite (bounds : Bounds disk mydata) (sectors : Nat) :
    {root | RootWithin bounds sectors root}.Finite := by
  have scans : {scan : Scan | Near bounds.most Memory.blank scan.block ∧
      scan.dentptr ≤ mydata.bytesperclust ∧ CacheWithin bounds Memory.blank scan.cache}.Finite := by
    have pairs := (Set.finite_le_nat mydata.bytesperclust).prod
      (cacheWithin_finite bounds Memory.blank)
    apply ((near_finite bounds.most Memory.blank).image2
      (fun block (rest : Nat × FatCache) => Scan.mk block rest.1 rest.2) pairs).subset
    rintro scan ⟨block, dentptr, cache⟩
    exact ⟨scan.block, block, (scan.dentptr, scan.cache), ⟨dentptr, cache⟩, rfl⟩
  have counters := (Set.finite_le_nat sectors).prod ((Set.finite_le_nat mydata.clustSize).prod
    ((Set.finite_le_nat bounds.clusters).prod (Set.toFinite (Set.univ : Set Bool))))
  apply (scans.image2 (fun scan (rest : Nat × Nat × Nat × Bool) =>
    RootScan.mk scan rest.1 rest.2.1 rest.2.2.1 rest.2.2.2) counters).subset
  intro root within
  exact ⟨root.scan, ⟨within.block, within.dentptr, within.cache⟩,
    (root.cursect, root.bufferBlkCnt, root.rootCluster, root.firsttime),
    ⟨within.cursect, Nat.le_of_lt within.count, within.cluster, trivial⟩, rfl⟩

section Fat32

variable [clustered : mydata.Clustered] {bounds : Bounds disk mydata} {sectors : Nat}
  (fat32 : mydata.fatsize = .fat32)
  (reads : ∀ block ≤ sectors, (disk block mydata.clustSize).2.length ≤ bounds.most)
  (room : mydata.bytesperclust ≤ bounds.most) (all : 2 ^ 32 ≤ sectors)
  (within : RootWithin bounds sectors root)

omit clustered in
include fat32 reads within in
theorem rootFetch_within {dirPtr : Nat} {fetched : Scan}
    (fetch : rootFetch disk mydata root = some (dirPtr, fetched)) :
    fetched.cache = root.scan.cache ∧ Near bounds.most Memory.blank fetched.block ∧
      fetched.dentptr ≤ root.bufferBlkCnt * mydata.sectSize := by
  simp only [rootFetch, fat32, true_or, ↓reduceIte, true_and] at fetch
  split at fetch
  · rename_i started
    cases fetch
    exact ⟨rfl, within.block, within.place started⟩
  · split at fetch
    · cases fetch
    · cases fetch
      refine ⟨rfl, within.block.store ?_, Nat.zero_le _⟩
      rw [Nat.zero_add]
      exact reads _ within.cursect

include fat32 reads room all within in
/-- A turn stays within the bounds. -/
theorem rootStep_within (turn : Turn (rootStep disk mydata rootdirSize name isdir) root next) :
    RootWithin bounds sectors next := by
  obtain ⟨dirPtr, fetched, after, fetch, more, advance⟩ := rootStep_cases turn
  obtain ⟨sameCache, near, low⟩ := rootFetch_within fat32 reads within fetch
  obtain ⟨moved, cacheKept, blockKept⟩ :=
    @rootEntries_moved _ _ bounds Memory.blank _ _ _ _ _ _ _ within.cluster more
  have sector : mydata.direntsPerBlock * direntSize ≤ mydata.sectSize := Nat.div_mul_le_self _ _
  have done : after.dentptr ≤ (root.bufferBlkCnt + 1) * mydata.sectSize := by
    rw [Nat.add_mul]
    omega
  have whole : (root.bufferBlkCnt + 1) * mydata.sectSize ≤ mydata.bytesperclust :=
    Nat.mul_le_mul_right _ within.count
  have inCluster := Nat.le_trans done whole
  have cache := cacheKept (sameCache ▸ within.cache)
  have block := blockKept bounds.most (by omega) near
  simp only [rootAdvance, fat32] at advance
  split at advance
  · split at advance
    · cases advance
    · rename_i valid
      cases advance
      refine ⟨getFatent_within cache within.cluster, block, ?_,
        checked_low (Bool.eq_false_iff.mpr valid), ?_, inCluster, fun started => absurd rfl started⟩
      · dsimp only
        omega
      · exact clustered.sectors
  · rename_i inside
    cases advance
    refine ⟨cache, block, within.cursect, within.cluster, ?_, inCluster, fun _ => done⟩
    have count := within.count
    dsimp only
    omega

end Fat32

/-- Clusters without sectors of sectors without entries: no turn of the loop decides anything. -/
structure Idle (disk : DiskRead) (mydata : Fsdata) : Prop where
  clustSize : mydata.clustSize = 0
  entries : mydata.direntsPerBlock = 0
  readable : 0 ≤ (disk mydata.rootdirSect 0).1

/-- The bytes of a record behind all that was read are zero, which ends the search. -/
theorem rootEntry_blank {curclust start : Nat} {scan : Scan}
    (near : Near scan.dentptr Memory.blank scan.block) :
    rootEntry disk mydata name isdir curclust start scan = .absent := by
  have zero : scan.block.load scan.dentptr direntSize = List.replicate direntSize 0 := by
    rw [Memory.load, List.eq_replicate_iff]
    refine ⟨by simp, ?_⟩
    intro byte member
    obtain ⟨i, -, rfl⟩ := List.mem_map.mp member
    exact near _ (Nat.le_add_right _ _)
  have first : Record.byte (List.replicate direntSize 0) 0 = 0 := by decide
  have attr : Record.attr (List.replicate direntSize 0) &&& attrVolume = 0 := by decide
  have used : ¬(0 : UInt8) = deletedFlag := by decide
  simp only [rootEntry, zero, first, attr, used, ne_eq, not_true_eq_false, ↓reduceIte]

section Clusterless

variable (fat32 : mydata.fatsize = .fat32) (empty : mydata.clustSize = 0)
include fat32

theorem rootFetch_started (started : root.bufferBlkCnt ≠ 0) :
    rootFetch disk mydata root = some (0, root.scan) := by
  simp only [rootFetch, fat32, started, true_or, ne_eq, not_false_eq_true, and_self, ↓reduceIte]

include empty

theorem rootAdvance_clusterless : rootAdvance disk mydata rootdirSize root =
    some { root with bufferBlkCnt := root.bufferBlkCnt + 1, firsttime := false } := by
  have more : ¬root.bufferBlkCnt + 1 = mydata.clustSize := by omega
  simp only [rootAdvance, fat32, more, ↓reduceIte]

/-- The entries move on through what the first turn has read, and end behind it. -/
theorem rootStep_clusterless_stops (entries : 0 < mydata.direntsPerBlock)
    (bounds : Bounds disk mydata) (low : root.rootCluster ≤ bounds.clusters) (length : Nat)
    (started : root.bufferBlkCnt ≠ 0)
    (near : Near (max length root.scan.dentptr) Memory.blank root.scan.block) :
    Stops (rootStep disk mydata rootdirSize name isdir) root := by
  induction size : length - root.scan.dentptr using Nat.strong_induction_on generalizing root with
  | _ ahead ih =>
    cases step : rootStep disk mydata rootdirSize name isdir root with
    | none => exact .now step
    | some next =>
      obtain ⟨dirPtr, fetched, after, fetch, more, advance⟩ := rootStep_cases step
      cases (rootFetch_started fat32 started).symm.trans fetch
      cases (rootAdvance_clusterless fat32 empty).symm.trans advance
      have inside : root.scan.dentptr < length := by
        by_contra past
        rw [Nat.max_eq_right (Nat.le_of_not_lt past)] at near
        rw [show mydata.direntsPerBlock = mydata.direntsPerBlock - 1 + 1 by omega, rootEntries,
          rootEntry_blank near] at more
        cases more
      obtain ⟨moved, -, kept⟩ := @rootEntries_moved _ _ bounds Memory.blank _ _ _ _ _ _ _ low more
      have further : direntSize ≤ mydata.direntsPerBlock * direntSize :=
        Nat.le_mul_of_pos_left _ entries
      unfold direntSize at moved further
      have less : length - after.dentptr < ahead := by omega
      refine .later step (ih _ less low (Nat.succ_ne_zero _) ?_ rfl)
      apply kept _ (Nat.le_max_right _ _)
      intro i behind
      exact near i (by omega)

theorem rootStep_idle (entries : mydata.direntsPerBlock = 0) (started : root.bufferBlkCnt ≠ 0) :
    ¬Stops (rootStep disk mydata rootdirSize name isdir) root := by
  have turns {state : RootScan} {dirPtr : Nat} {scan : Scan}
      (fetched : rootFetch disk mydata state = some (dirPtr, scan)) :
      rootStep disk mydata rootdirSize name isdir state =
        some ⟨scan, state.cursect, state.bufferBlkCnt + 1, state.rootCluster, false⟩ := by
    simp only [rootStep, fetched, entries, rootEntries, rootAdvance_clusterless fat32 empty]
  intro stops
  induction stops with
  | @now state last =>
    rw [turns (rootFetch_started fat32 started)] at last
    cases last
  | @later state next turn _ ih =>
    cases (turns (rootFetch_started fat32 started)).symm.trans turn
    exact ih (Nat.succ_ne_zero _)

/-- Where clusters have no sectors, only sectors without entries are read for ever. -/
theorem rootScan_clusterless_stops_iff {mounted : Mounted} (same : mounted.mydata = mydata) :
    Stops (rootStep disk mydata rootdirSize name isdir) mounted.rootScan ↔ ¬Idle disk mydata := by
  obtain ⟨bounds, low, -⟩ := exists_bounds disk mydata mounted.rootCluster 0
  have fetch : rootFetch disk mydata mounted.rootScan =
      if (disk mydata.rootdirSect 0).1 < 0 then none
      else some (0, ⟨Memory.blank.store 0 (disk mydata.rootdirSect 0).2, 0,
        ⟨Memory.blank, none⟩⟩) := by
    simp only [rootFetch, Mounted.rootScan, same, fat32, empty, true_or, ne_eq, not_true_eq_false,
      and_false, ↓reduceIte]
  by_cases readable : (disk mydata.rootdirSect 0).1 < 0
  · rw [if_pos readable] at fetch
    refine iff_of_true (.now (by simp only [rootStep, fetch])) ?_
    intro idle
    exact absurd idle.readable (by omega)
  rw [if_neg readable] at fetch
  cases first : rootStep disk mydata rootdirSize name isdir mounted.rootScan with
  | none =>
    refine iff_of_true (.now first) ?_
    intro idle
    simp only [rootStep, fetch, idle.entries, rootEntries,
      rootAdvance_clusterless fat32 empty] at first
    cases first
  | some next =>
    have onward : Stops (rootStep disk mydata rootdirSize name isdir) mounted.rootScan ↔
        Stops (rootStep disk mydata rootdirSize name isdir) next := by
      refine ⟨?_, fun rest => .later first rest⟩
      rintro (last | ⟨turn, rest⟩)
      · cases first.symm.trans last
      · rwa [turn_unique first turn]
    obtain ⟨dirPtr, fetched, after, fetched, more, advance⟩ := rootStep_cases first
    cases fetch.symm.trans fetched
    cases (rootAdvance_clusterless fat32 empty).symm.trans advance
    rw [onward]
    by_cases entries : mydata.direntsPerBlock = 0
    · exact iff_of_false (rootStep_idle fat32 empty entries (Nat.succ_ne_zero _))
        (not_not.mpr ⟨empty, entries, by omega⟩)
    · refine iff_of_true ?_ (fun idle => entries idle.entries)
      obtain ⟨-, -, kept⟩ := @rootEntries_moved _ _ bounds Memory.blank _ _ _ _ _ _ _ low more
      apply rootStep_clusterless_stops fat32 empty (Nat.pos_of_ne_zero entries) bounds low
        (disk mydata.rootdirSect 0).2.length (Nat.succ_ne_zero _)
      apply kept _ (Nat.le_max_right _ _)
      exact Near.store (fun _ _ => rfl) (by omega)

end Clusterless

theorem rootLoop_fat32_ends_iff {mounted : Mounted} (fat32 : mounted.mydata.fatsize = .fat32) :
    (∃ fuel, rootLoop disk mounted.mydata mounted.rootdirSize name isdir fuel mounted.rootScan ≠
        none) ↔
      ¬(Circles (rootStep disk mounted.mydata mounted.rootdirSize name isdir) mounted.rootScan ∨
        Idle disk mounted.mydata) := by
  rw [rootLoop_fuelled.ends_iff]
  rcases Nat.eq_zero_or_pos mounted.mydata.clustSize with empty | sectors
  · have ends := @rootScan_clusterless_stops_iff disk mounted.mydata mounted.rootdirSize name isdir
      fat32 empty mounted rfl
    refine ⟨?_, fun never => ends.mpr fun idle => never (.inr idle)⟩
    rintro stops (circles | idle)
    · exact stops.not_circles circles
    · exact ends.mp stops idle
  have notIdle : ¬Idle disk mounted.mydata := fun idle => by
    have none := idle.clustSize
    omega
  have : mounted.mydata.Clustered := ⟨sectors⟩
  rw [or_iff_left notIdle]
  obtain ⟨most, reads⟩ := reads_bounded disk (max mounted.mydata.rootdirSect (2 ^ 32))
    mounted.mydata.clustSize
  obtain ⟨bounds, cluster, room⟩ := exists_bounds disk mounted.mydata mounted.rootCluster
    (max most mounted.mydata.bytesperclust)
  apply stops_iff_not_circles
    (rootWithin_finite bounds (max mounted.mydata.rootdirSect (2 ^ 32)))
  · refine ⟨⟨fun _ _ => rfl, ?_⟩, fun _ _ => rfl, Nat.le_max_left _ _, cluster, sectors,
      Nat.zero_le _, fun started => absurd rfl started⟩
    intro n known
    cases known
  · intro root next within turn
    refine rootStep_within fat32 ?_ (by omega) (Nat.le_max_right _ _) within turn
    intro block low
    have short := reads block low _ (Nat.le_refl _)
    omega

theorem rootStep_fat16 (fat16 : mydata.fatsize ≠ .fat32)
    (turn : Turn (rootStep disk mydata rootdirSize name isdir) root next) :
    next.cursect = (root.cursect + 1) % 2 ^ 32 ∧
      (UInt32.ofNat next.cursect - UInt32.ofNat mydata.rootdirSect).toNat < rootdirSize := by
  obtain ⟨dirPtr, fetched, after, fetch, more, advance⟩ := rootStep_cases turn
  simp only [rootAdvance] at advance
  rw [ite_eq_iff] at advance
  obtain ⟨-, none⟩ | ⟨below, same⟩ := advance
  · cases none
  · cases same
    exact ⟨rfl, Nat.lt_of_not_le below⟩

theorem rootLoop_fat16_stops (fat16 : mydata.fatsize ≠ .fat32) (small : rootdirSize + 1 < 2 ^ 32)
    {done : Nat} (low : done ≤ rootdirSize)
    (place : UInt32.ofNat root.cursect = UInt32.ofNat mydata.rootdirSect + UInt32.ofNat done) :
    Stops (rootStep disk mydata rootdirSize name isdir) root := by
  induction left : rootdirSize - done using Nat.strong_induction_on generalizing done root with
  | _ left ih =>
    cases step : rootStep disk mydata rootdirSize name isdir root with
    | none => exact .now step
    | some next =>
      obtain ⟨further, below⟩ := rootStep_fat16 fat16 step
      have counted : UInt32.ofNat next.cursect =
          UInt32.ofNat mydata.rootdirSect + UInt32.ofNat (done + 1) := by
        rw [further, UInt32.ofNat_mod_size, UInt32.ofNat_add, place, UInt32.ofNat_add,
          UInt32.add_assoc]
      have passed : (UInt32.ofNat (done + 1)).toNat < rootdirSize := by
        rwa [counted, UInt32.add_comm, UInt32.add_sub_cancel] at below
      rw [UInt32.toNat_ofNat'] at passed
      have next : (done + 1) % 2 ^ 32 = done + 1 := Nat.mod_eq_of_lt (by omega)
      exact .later step (ih _ (by omega) (by omega) counted rfl)

end Root

/-! ## Paths -/

/-- What is left of a path behind its first name. -/
def restOf (subname : List UInt8) : List UInt8 :=
  (subname.dropWhile (! isdirdelim ·)).dropWhile isdirdelim

theorem restOf_length {subname : List UInt8} (delimited : subname.any isdirdelim = true) :
    (restOf subname).length < subname.length := by
  have dropped := (List.dropWhile_suffix (! isdirdelim ·) (l := subname)).length_le
  unfold restOf
  cases split : subname.dropWhile (! isdirdelim ·) with
  | nil =>
    obtain ⟨c, member, delimiter⟩ := List.any_eq_true.mp delimited
    have every := List.dropWhile_eq_nil_iff.mp split c member
    rw [delimiter] at every
    cases every
  | cons c rest =>
    have delimiter : isdirdelim c = true := by
      have head := List.head?_dropWhile_not (! isdirdelim ·) subname
      simpa [split] using head
    rw [List.dropWhile_cons_of_pos delimiter]
    have further := (List.dropWhile_suffix isdirdelim (l := rest)).length_le
    rw [split, List.length_cons] at dropped
    omega

/-- A search below a directory comes back to a cluster: in the directory itself, or further down. -/
inductive CircularBelow (disk : DiskRead) (mydata : Fsdata) : List UInt8 → Record → FatCache → Prop
    where
  | here {subname : List UInt8} {dent : Record} {cache : FatCache}
    (circles : Circles (subStep disk mydata (subname.takeWhile (! isdirdelim ·)))
      (dent.dirEntry.startClust mydata.fatsize, cache)) :
    CircularBelow disk mydata subname dent cache
  | deeper {subname : List UInt8} {dent child : Record} {cache after : FatCache} {fuel : Nat}
    (found : getDentfromdir disk mydata (subname.takeWhile (! isdirdelim ·)) fuel
      (dent.dirEntry.startClust mydata.fatsize) cache = some (.found child after))
    (delimited : subname.any isdirdelim = true) (directory : child.attr &&& attrDir ≠ 0)
    (circular : CircularBelow disk mydata (restOf subname) child after) :
    CircularBelow disk mydata subname dent cache

section Below

variable {disk : DiskRead} {mydata : Fsdata}

variable {dent : Record} {subname : List UInt8}

/-- More fuel does not change what is found below a directory. -/
theorem descend_mono {fuel more : Nat} (enough : fuel ≤ more) {cache : FatCache}
    {result : ScanEnd Empty} (ran : descend disk mydata fuel subname dent cache = some result) :
    descend disk mydata more subname dent cache = some result := by
  induction fuel generalizing more subname dent cache with
  | zero => cases ran
  | succ fuel ih =>
    obtain ⟨more, rfl⟩ : ∃ k, more = k + 1 := ⟨more - 1, by omega⟩
    simp only [descend] at ran ⊢
    split at ran
    · rename_i child after found
      rw [getDentfromdir_mono (by omega) found]
      dsimp only
      split at ran
      · rename_i delimited
        rw [if_pos delimited]
        split at ran
        · rename_i file
          rw [if_pos file]
          exact ran
        · rename_i directory
          rw [if_neg directory]
          exact ih (by omega) ran
      · rename_i plain
        rw [if_neg plain]
        exact ran
    · rename_i other
      rw [getDentfromdir_mono (by omega) ran]
      cases result with
      | found child after => exact absurd ran (other child after)
      | absent => rfl
      | wild => rfl
      | more state => exact state.elim

theorem descend_not_circular {fuel : Nat} {cache : FatCache}
    (ends : descend disk mydata fuel subname dent cache ≠ none) :
    ¬CircularBelow disk mydata subname dent cache := by
  induction fuel generalizing subname dent cache with
  | zero => exact absurd rfl ends
  | succ fuel ih =>
    have searched : getDentfromdir disk mydata (subname.takeWhile (! isdirdelim ·)) fuel
        (dent.dirEntry.startClust mydata.fatsize) cache ≠ none := by
      intro unfinished
      simp only [descend, unfinished] at ends
      exact absurd rfl ends
    intro circular
    cases circular with
    | here circles => exact getDentfromdir_ends_iff.mp ⟨fuel, searched⟩ circles
    | @deeper _ _ child _ after enough found delimited directory circular =>
      obtain ⟨outcome, known⟩ := Option.ne_none_iff_exists'.mp searched
      have agree : some outcome = some (.found child after) := by
        rcases Nat.le_total fuel enough with less | less
        · exact (getDentfromdir_mono less known).symm.trans found
        · exact known.symm.trans (getDentfromdir_mono less found)
      simp only [descend, known, Option.some.inj agree, delimited, ↓reduceIte, directory] at ends
      exact ih ends circular

/-- A search below a directory that does not come back to a cluster ends. -/
theorem descend_ends {cache : FatCache} (straight : ¬CircularBelow disk mydata subname dent cache) :
    ∃ fuel, descend disk mydata fuel subname dent cache ≠ none := by
  induction size : subname.length using Nat.strong_induction_on generalizing subname dent cache with
  | _ size ih =>
    obtain ⟨fuel, searched⟩ := getDentfromdir_ends_iff.mpr fun circles => straight (.here circles)
    obtain ⟨outcome, known⟩ := Option.ne_none_iff_exists'.mp searched
    have short (notDown : ∀ child after, outcome = .found child after →
        subname.any isdirdelim = true → child.attr &&& attrDir = 0) :
        ∃ fuel, descend disk mydata fuel subname dent cache ≠ none := by
      refine ⟨fuel + 1, ?_⟩
      simp only [descend, known]
      cases outcome with
      | found child after =>
        by_cases delimited : subname.any isdirdelim = true
        · simp [delimited, notDown child after rfl delimited]
        · simp [delimited]
      | absent => exact Option.some_ne_none _
      | wild => exact Option.some_ne_none _
      | more state => exact state.elim
    cases outcome with
    | absent => exact short (by rintro _ _ ⟨⟩)
    | wild => exact short (by rintro _ _ ⟨⟩)
    | more state => exact state.elim
    | found child after =>
      by_cases down : subname.any isdirdelim = true ∧ child.attr &&& attrDir ≠ 0
      · obtain ⟨delimited, directory⟩ := down
        obtain ⟨rest, ends⟩ := ih _ (size ▸ restOf_length delimited)
          (fun circular => straight (.deeper known delimited directory circular)) rfl
        obtain ⟨result, ran⟩ := Option.ne_none_iff_exists'.mp ends
        refine ⟨max fuel rest + 1, ?_⟩
        have found := getDentfromdir_mono (Nat.le_max_left fuel rest) known
        have below := descend_mono (Nat.le_max_right fuel rest) ran
        simp only [restOf] at below
        simp only [descend, found, delimited, ↓reduceIte, directory, below]
        exact Option.some_ne_none _
      · apply short
        intro _ _ same delimited
        cases same
        exact Classical.not_not.mp fun directory => down ⟨delimited, directory⟩

end Below

/-- The search for a path comes back to a cluster, or idles: in a FAT32 root directory, or below a
directory that is found in the root directory. -/
def CircularPath (disk : DiskRead) (mounted : Mounted) (path : List UInt8) : Prop :=
  let name := path.takeWhile (! isdirdelim ·)
  let isdir := path.any isdirdelim
  (mounted.mydata.fatsize = .fat32 ∧
    (Circles (rootStep disk mounted.mydata mounted.rootdirSize name isdir) mounted.rootScan ∨
      Idle disk mounted.mydata)) ∨
  ∃ fuel dent cache, isdir = true ∧ rootLoop disk mounted.mydata mounted.rootdirSize name isdir fuel
    mounted.rootScan = some (.found dent cache) ∧
      CircularBelow disk mounted.mydata (restOf path) dent cache

section Path

variable {disk : DiskRead} {blksz : Nat} {mounted : Mounted} {path : List UInt8}

theorem mount_rootdirSize (mount : mount disk blksz = some mounted) :
    mounted.rootdirSize + 1 < 2 ^ 32 := by
  simp only [Fat.mount] at mount
  split at mount
  · cases mount
  rename_i bs boot
  have entries : bs.dirEntries < 65536 := by
    simp only [readBootsectandvi] at boot
    split at boot
    · cases boot
    · obtain ⟨fatsize, -, rfl⟩ := Option.map_eq_some_iff.mp boot
      exact Memory.half_lt _ _
  have size : bs.dirEntries * direntSize / bs.sectorSize < 65536 * 32 := by
    apply Nat.lt_of_le_of_lt (Nat.div_le_self _ _)
    unfold direntSize
    omega
  split at mount
  · cases mount
  split at mount
  · cases mount
    dsimp only
    split
    · omega
    · omega
  · cases mount

theorem rootLoop_ends_iff (mount : mount disk blksz = some mounted) (name : List UInt8)
    (isdir : Bool) :
    (∃ fuel, rootLoop disk mounted.mydata mounted.rootdirSize name isdir fuel mounted.rootScan ≠
        none) ↔ ¬(mounted.mydata.fatsize = .fat32 ∧
      (Circles (rootStep disk mounted.mydata mounted.rootdirSize name isdir) mounted.rootScan ∨
        Idle disk mounted.mydata)) := by
  by_cases fat32 : mounted.mydata.fatsize = .fat32
  · rw [rootLoop_fat32_ends_iff fat32, and_iff_right fat32]
  · have stops : Stops (rootStep disk mounted.mydata mounted.rootdirSize name isdir)
        mounted.rootScan :=
      rootLoop_fat16_stops fat32 (mount_rootdirSize mount) (Nat.zero_le _) (UInt32.add_zero _).symm
    exact ⟨fun _ both => fat32 both.1, fun _ => rootLoop_fuelled.ends_iff.mpr stops⟩

/-- The search for a path ends exactly if it does not come back to a cluster. -/
theorem searchPath_ends_iff (mount : mount disk blksz = some mounted) :
    (∃ fuel, searchPath disk mounted path fuel ≠ none) ↔ ¬CircularPath disk mounted path := by
  have rootEnds := rootLoop_ends_iff mount (path.takeWhile (! isdirdelim ·)) (path.any isdirdelim)
  constructor
  · rintro ⟨fuel, ends⟩ circular
    have searched : rootLoop disk mounted.mydata mounted.rootdirSize
        (path.takeWhile (! isdirdelim ·)) (path.any isdirdelim) fuel mounted.rootScan ≠ none := by
      intro unfinished
      simp only [searchPath, unfinished] at ends
      exact absurd rfl ends
    rcases circular with circles | ⟨enough, dent, cache, delimited, found, circular⟩
    · exact rootEnds.mp ⟨fuel, searched⟩ circles
    · rw [delimited] at searched found
      obtain ⟨outcome, known⟩ := Option.ne_none_iff_exists'.mp searched
      have agree : some outcome = some (.found dent cache) := by
        rcases Nat.le_total fuel enough with less | less
        · exact (rootLoop_fuelled.mono less known).symm.trans found
        · exact known.symm.trans (rootLoop_fuelled.mono less found)
      rw [agree] at known
      simp only [searchPath, known, delimited, ↓reduceIte] at ends
      exact descend_not_circular ends circular
  · intro straight
    obtain ⟨fuel, searched⟩ := rootEnds.mpr fun circles => straight (.inl circles)
    obtain ⟨outcome, known⟩ := Option.ne_none_iff_exists'.mp searched
    have short (notDown : ∀ dent cache, outcome = .found dent cache →
        path.any isdirdelim = false) : ∃ fuel, searchPath disk mounted path fuel ≠ none := by
      refine ⟨fuel, ?_⟩
      simp only [searchPath, known]
      cases outcome with
      | found dent cache => simp [notDown dent cache rfl]
      | absent => exact Option.some_ne_none _
      | wild => exact Option.some_ne_none _
      | more state => exact state.elim
    cases outcome with
    | absent => exact short (by rintro _ _ ⟨⟩)
    | wild => exact short (by rintro _ _ ⟨⟩)
    | more state => exact state.elim
    | found dent cache =>
      cases delimited : path.any isdirdelim with
      | false => exact short fun _ _ _ => delimited
      | true =>
        obtain ⟨rest, ends⟩ := descend_ends fun circular =>
          straight (.inr ⟨fuel, dent, cache, delimited, known, circular⟩)
        obtain ⟨result, ran⟩ := Option.ne_none_iff_exists'.mp ends
        refine ⟨max fuel rest, ?_⟩
        have found := rootLoop_fuelled.mono (Nat.le_max_left fuel rest) known
        have below := descend_mono (Nat.le_max_right fuel rest) ran
        simp only [restOf] at below
        rw [delimited] at found
        simp only [searchPath, delimited, found, ↓reduceIte, below]
        exact Option.some_ne_none _

end Path

/-- The search of `do_fat_read_at` for a file comes back to a cluster. -/
def CircularSearch (disk : DiskRead) (blksz : Nat) (filename : List UInt8) : Prop :=
  ∃ mounted, mount disk blksz = some mounted ∧
    (filename.dropWhile isdirdelim).length < fnamecopySize ∧ filename.dropWhile isdirdelim ≠ [] ∧
    CircularPath disk mounted (downcase (filename.dropWhile isdirdelim))

section Search

variable {disk : DiskRead} {blksz : Nat} {mounted : Mounted} {filename : List UInt8}

theorem circularSearch_iff (mounting : mount disk blksz = some mounted) :
    CircularSearch disk blksz filename ↔
      (filename.dropWhile isdirdelim).length < fnamecopySize ∧ filename.dropWhile isdirdelim ≠ [] ∧
        CircularPath disk mounted (downcase (filename.dropWhile isdirdelim)) := by
  constructor
  · rintro ⟨other, mount, circular⟩
    cases mounting.symm.trans mount
    exact circular
  · intro circular
    exact ⟨mounted, mounting, circular⟩

theorem doFatReadAt_searches (mounting : mount disk blksz = some mounted)
    (short : (filename.dropWhile isdirdelim).length < fnamecopySize)
    (named : filename.dropWhile isdirdelim ≠ []) {pos buffer maxsize : Nat} {dogetsize : Bool}
    {memory : Memory} :
    (∃ fuel, doFatReadAt disk blksz filename pos buffer maxsize dogetsize memory fuel ≠ none) ↔
      ∃ fuel, searchPath disk mounted (downcase (filename.dropWhile isdirdelim)) fuel ≠ none := by
  have fits : ¬fnamecopySize ≤ (downcase (filename.dropWhile isdirdelim)).length := by
    rw [downcase, List.length_map]
    omega
  have isName : downcase (filename.dropWhile isdirdelim) ≠ [] := by simpa [downcase] using named
  simp only [doFatReadAt, mounting, if_neg fits, if_neg isName, ne_eq, Option.map_eq_none_iff]

end Search

/-- `do_fat_read_at` returns exactly if its search does not come back to a cluster. -/
theorem doFatReadAt_ends_iff (disk : DiskRead) (blksz : Nat) (filename : List UInt8)
    (pos buffer maxsize : Nat) (dogetsize : Bool) (memory : Memory) :
    (∃ fuel, doFatReadAt disk blksz filename pos buffer maxsize dogetsize memory fuel ≠ none) ↔
      ¬CircularSearch disk blksz filename := by
  cases mounting : mount disk blksz with
  | none =>
    refine iff_of_true ⟨0, by simp [doFatReadAt, mounting]⟩ ?_
    rintro ⟨mounted, mount, -⟩
    cases mounting.symm.trans mount
  | some mounted =>
    rw [circularSearch_iff mounting]
    by_cases long : fnamecopySize ≤ (filename.dropWhile isdirdelim).length
    · exact iff_of_true ⟨0, by simp [doFatReadAt, mounting, downcase, long]⟩
        fun circular => absurd circular.1 (Nat.not_lt_of_le long)
    by_cases empty : filename.dropWhile isdirdelim = []
    · exact iff_of_true ⟨0, by simp [doFatReadAt, mounting, downcase, empty, fnamecopySize]⟩
        fun circular => circular.2.1 empty
    rw [doFatReadAt_searches mounting (Nat.lt_of_not_le long) empty, searchPath_ends_iff mounting]
    exact not_congr ⟨fun circular => ⟨Nat.lt_of_not_le long, empty, circular⟩,
      fun circular => circular.2.2⟩

/-! ## A volume -/

/-- The entry of the directory `A`, which starts in cluster 2. -/
def ringDent : Record :=
  [0x41, 0x20, 0x20, 0x20, 0x20, 0x20, 0x20, 0x20, 0x20, 0x20, 0x20, 0x10, 0, 0, 0, 0, 0, 0, 0, 0,
    0, 0, 0, 0, 0, 0, 2, 0, 0, 0, 0, 0]

/-- A FAT16 volume with this directory. Sector 0 is the boot sector, sector 1 the table, where the
entry of cluster 2 is 2, sector 2 the root directory and sector 3 cluster 2, with deleted entries
only. -/
def ringVolume : Memory :=
  let boot := (Memory.blank.store 11 [0x00, 0x02, 1, 1, 0, 1, 16, 0, 0, 0, 0, 1, 0]).store 54
    fat16Sign
  (((boot.store 512 [0xf8, 0xff, 0xff, 0xff, 2, 0]).store 1024 ringDent).fill 1536 512 0xe5)

def ringDisk : DiskRead := fun block count => (count, ringVolume.load (block * 512) (count * 512))

theorem ring_sector : 0 < 512 := by
  decide

def ringMounted : Mounted := ⟨⟨.fat16, 1, 1, 2, 512, 1, 1, ring_sector⟩, 0, 1⟩

/-- The path `a/b`. -/
def ringPath : List UInt8 := [0x61, 0x2f, 0x62]

theorem subEntries_deleted {disk : DiskRead} {mydata : Fsdata} {name : List UInt8} {curclust : Nat}
    {entries : Nat} {scan : Scan} (deleted : ∀ k < entries,
      Record.byte (scan.block.load (scan.dentptr + k * direntSize) direntSize) 0 = deletedFlag) :
    subEntries disk mydata name curclust entries scan =
      .more { scan with dentptr := scan.dentptr + entries * direntSize } := by
  induction entries generalizing scan with
  | zero => simp [subEntries]
  | succ entries ih =>
    have first : subEntry disk mydata name curclust scan =
        .more { scan with dentptr := scan.dentptr + direntSize } := by
      have here := deleted 0 (Nat.zero_lt_succ _)
      rw [Nat.zero_mul, Nat.add_zero] at here
      simp only [subEntry, here, ↓reduceIte]
    rw [subEntries, first]
    dsimp only
    rw [ih]
    · congr 2
      dsimp only
      rw [Nat.add_mul]
      omega
    · intro k less
      have there := deleted (k + 1) (Nat.succ_lt_succ less)
      rw [Nat.add_mul, Nat.one_mul, Nat.add_comm (k * direntSize), ← Nat.add_assoc] at there
      exact there

theorem getFatent_cached {disk : DiskRead} {mydata : Fsdata} {cache : FatCache} {entry : Nat}
    (cached : cache.fatbufnum = some (entry / mydata.bufEntries)) :
    (getFatent disk mydata cache entry).2 = cache := by
  simp only [getFatent, cached, ↓reduceIte]

theorem subStep_deleted {disk : DiskRead} {mydata : Fsdata} {name : List UInt8} {curclust : Nat}
    {cache : FatCache} {block : Memory}
    (read : getCluster disk mydata curclust 0 mydata.bytesperclust Memory.blank = (true, block))
    (deleted : ∀ k < mydata.bytesperclust / direntSize,
      Record.byte (block.load (k * direntSize) direntSize) 0 = deletedFlag)
    (valid : checkClust (getFatent disk mydata cache curclust).1 mydata.fatsize = false) :
    subStep disk mydata name (curclust, cache) = some (getFatent disk mydata cache curclust) := by
  have passed := @subEntries_deleted disk mydata name curclust
    (mydata.bytesperclust / direntSize) ⟨block, 0, cache⟩ (by simpa using deleted)
  simp only [subStep, read, passed, valid, Bool.not_true, Bool.false_eq_true, ↓reduceIte]

theorem ring_turn {cache : FatCache} (table : (getFatent ringDisk ringMounted.mydata cache 2).1 = 2)
    :
    subStep ringDisk ringMounted.mydata [0x62] (2, cache) =
      some (2, (getFatent ringDisk ringMounted.mydata cache 2).2) := by
  obtain ⟨block, read⟩ : ∃ block, (getCluster ringDisk ringMounted.mydata 2 0
      ringMounted.mydata.bytesperclust Memory.blank).2 = block := ⟨_, rfl⟩
  have readable : (getCluster ringDisk ringMounted.mydata 2 0 ringMounted.mydata.bytesperclust
      Memory.blank).1 = true := by
    decide +kernel
  have deleted : ∀ k < ringMounted.mydata.bytesperclust / direntSize,
      Record.byte (block.load (k * direntSize) direntSize) 0 = deletedFlag := by
    rw [← read]
    decide +kernel
  rw [subStep_deleted (Prod.ext readable read) deleted (by rw [table]; rfl)]
  exact congrArg some (Prod.ext table rfl)

theorem ring_found : rootLoop ringDisk ringMounted.mydata ringMounted.rootdirSize [0x61] true 1
    ringMounted.rootScan = some (.found ringDent ⟨Memory.blank, none⟩) := by
  obtain ⟨block, stored⟩ : ∃ block, Memory.blank.store 0 (ringDisk 2 2).2 = block := ⟨_, rfl⟩
  have fetched : rootFetch ringDisk ringMounted.mydata ringMounted.rootScan =
      some (0, ⟨block, 0, ⟨Memory.blank, none⟩⟩) := by
    have answered : (ringDisk 2 2).1 = 2 := rfl
    simp [rootFetch, ringMounted, Mounted.rootScan, prefetchBlocks, answered, stored]
  have dent : block.load 0 direntSize = ringDent := by
    rw [← stored]
    decide +kernel
  have name : getName ringDent = [0x61] := by decide +kernel
  have entry : rootEntry ringDisk ringMounted.mydata [0x61] true ringMounted.rootScan.rootCluster 0
      ⟨block, 0, ⟨Memory.blank, none⟩⟩ = .found ringDent ⟨Memory.blank, none⟩ := by
    simp only [rootEntry, compareEntry, dent, name]
    rfl
  simp only [rootLoop, fetched]
  rw [show ringMounted.mydata.direntsPerBlock = 15 + 1 from rfl, rootEntries, entry]

theorem ring_circular : CircularSearch ringDisk 512 ringPath := by
  have mounted : mount ringDisk 512 = some ringMounted := by
    set_option maxRecDepth 100000 in rfl
  have path : downcase (ringPath.dropWhile isdirdelim) = ringPath := by decide
  have first := @ring_turn ⟨Memory.blank, none⟩ (by decide +kernel)
  obtain ⟨after, read⟩ : ∃ after, (getFatent ringDisk ringMounted.mydata
      ⟨Memory.blank, none⟩ 2).2 = after := ⟨_, rfl⟩
  have kept : getFatent ringDisk ringMounted.mydata after 2 = (2, after) := by
    have number : after.fatbufnum = some (2 / ringMounted.mydata.bufEntries) := by
      rw [← read]
      decide +kernel
    have value : (getFatent ringDisk ringMounted.mydata after 2).1 = 2 := by
      rw [← read]
      decide +kernel
    exact Prod.ext value (getFatent_cached number)
  have again := @ring_turn after (by rw [kept])
  rw [read] at first
  rw [kept] at again
  refine ⟨ringMounted, mounted, by decide, by decide, ?_⟩
  rw [path]
  refine .inr ⟨1, ringDent, _, by decide, ring_found, .here ?_⟩
  exact ⟨(2, after), .single first, .single again⟩

/-- `do_fat_read_at` does not return for every volume: a directory whose chain comes back to its
cluster is read for ever. -/
theorem doFatReadAt_endless :
    ¬∀ (disk : DiskRead) (blksz : Nat) (filename : List UInt8) (pos buffer maxsize : Nat)
      (dogetsize : Bool) (memory : Memory),
      ∃ fuel, doFatReadAt disk blksz filename pos buffer maxsize dogetsize memory fuel ≠ none := by
  intro every
  obtain ⟨mounted, mounting, short, named, circular⟩ := ring_circular
  have ends := every ringDisk 512 ringPath 0 0 0 false Memory.blank
  rw [doFatReadAt_searches mounting short named] at ends
  exact (searchPath_ends_iff mounting).mp ends circular

end HrppBoot.Fat
