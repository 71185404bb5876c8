import HrppBoot.Fat.Directory

/-!
# Reads into the buffers of the reader

`get_fatent` reads into `fatbuf`, which has `FATBUFBLOCKS` sectors, the root directory, the
sub-directories, the long names and the first part of a file into static buffers of `MAX_CLUSTSIZE`
bytes. The reads that a run asks for are listed here; each is told by the values that its place and
its length are computed from.
-/

namespace HrppBoot.Fat

open ByteMemory

inductive Request where
  /-- `get_fatent`, for an entry of the table. -/
  | table (entry : Nat)
  /-- The root directory, at an offset in `do_fat_read_at_block`. -/
  | root (dirPtr : Nat)
  /-- `get_dentfromdir`, a cluster of a sub-directory. -/
  | directory
  /-- `get_vfatname`, the cluster behind a long name. -/
  | longName
  /-- `get_contents`, the first bytes of a cluster. -/
  | part (size : Nat)
  deriving DecidableEq, Repr

namespace Request

def count (mydata : Fsdata) : Request → Nat
  | .table entry =>
    let startblock := entry / mydata.bufEntries * fatbufBlocks
    if mydata.fatlength.toNat < startblock + fatbufBlocks then
      (mydata.fatlength - UInt32.ofNat startblock).toNat else fatbufBlocks
  | .root _ => if mydata.fatsize = .fat32 then mydata.clustSize else prefetchBlocks
  | .directory => mydata.bytesperclust / mydata.sectSize
  | .longName => mydata.bytesperclust / mydata.sectSize
  | .part size => size / mydata.sectSize

def offset : Request → Nat
  | .root dirPtr => dirPtr
  | _ => 0

def capacity (mydata : Fsdata) : Request → Nat
  | .table _ => mydata.fatbufSize
  | _ => maxClustsize

def Fits (mydata : Fsdata) (request : Request) : Prop :=
  request.offset + request.count mydata * mydata.sectSize ≤ request.capacity mydata

instance (mydata : Fsdata) (request : Request) : Decidable (request.Fits mydata) :=
  inferInstanceAs (Decidable (_ ≤ _))

/-- The condition for that: the read of the table starts no further than where the table ends, a
cluster fits the static buffers. -/
def Inside (mydata : Fsdata) : Request → Prop
  | .table entry => entry / mydata.bufEntries * fatbufBlocks ≤ mydata.fatlength.toNat
  | .root dirPtr =>
    if mydata.fatsize = .fat32 then dirPtr + mydata.clustSize * mydata.sectSize ≤ maxClustsize
    else dirPtr + prefetchBlocks * mydata.sectSize ≤ maxClustsize
  | .directory => mydata.clustSize * mydata.sectSize ≤ maxClustsize
  | .longName => mydata.clustSize * mydata.sectSize ≤ maxClustsize
  | .part size => size - size % mydata.sectSize ≤ maxClustsize

end Request

/-! ## Directories -/

section Reads

variable (disk : DiskRead) (mydata : Fsdata)

/-- The reads of `get_fatent`. -/
def fatentReads (cache : FatCache) (entry : Nat) : List Request :=
  if cache.fatbufnum = some (entry / mydata.bufEntries) then [] else [.table entry]

/-- The reads of `get_vfatname`. -/
def vfatnameReads (cache : FatCache) (curclust : Nat) (cluster : Memory) (start retdent : Nat) :
    List Request :=
  let buflimit := start + mydata.sectSize * if curclust = 0 then prefetchBlocks else mydata.clustSize
  let counter := (Record.seq (cluster.load retdent direntSize)).toNat
  if vfatMaxseq < counter then []
  else
    match skipSlots cluster retdent buflimit counter with
    | none => []
    | some (slotptr, _) =>
      if slotptr < buflimit then []
      else if curclust = 0 then []
      else
        fatentReads mydata cache curclust ++
          if checkClust (getFatent disk mydata cache curclust).1 mydata.fatsize then []
          else [.longName]

/-- The reads for an entry of a directory. -/
def entryReads (curclust start : Nat) (scan : Scan) : List Request :=
  let dent : Record := scan.block.load scan.dentptr direntSize
  if dent.byte 0 = deletedFlag then []
  else if dent.attr &&& attrVolume ≠ 0 then
    if dent.attr &&& attrVfat = attrVfat ∧ dent.byte 0 &&& lastLongEntryMask ≠ 0 then
      vfatnameReads disk mydata scan.cache curclust scan.block start scan.dentptr
    else []
  else []

/-- The reads of the loop over the entries of a sector of the root directory. -/
def rootEntriesReads (name : List UInt8) (isdir : Bool) (rootCluster start : Nat) :
    Nat → Scan → List Request
  | 0, _ => []
  | entries + 1, scan =>
    entryReads disk mydata rootCluster start scan ++
      match rootEntry disk mydata name isdir rootCluster start scan with
      | .more scan => rootEntriesReads name isdir rootCluster start entries scan
      | _ => []

/-- The reads at the start of a turn over the root directory. -/
def rootFetchReads (root : RootScan) : List Request :=
  let fat32 := mydata.fatsize = .fat32
  let dirPtr := if fat32 ∨ root.firsttime then 0 else mydata.sectSize
  if fat32 ∧ root.bufferBlkCnt ≠ 0 then [] else [.root dirPtr]

/-- The reads at the end of a turn over the root directory. -/
def rootAdvanceReads (root : RootScan) : List Request :=
  if mydata.fatsize = .fat32 ∧ root.bufferBlkCnt + 1 = mydata.clustSize then
    fatentReads mydata root.scan.cache root.rootCluster
  else []

/-- The reads of the loop over the sectors of the root directory. -/
def rootLoopReads (rootdirSize : Nat) (name : List UInt8) (isdir : Bool) :
    Nat → RootScan → List Request
  | 0, _ => []
  | fuel + 1, root =>
    rootFetchReads mydata root ++
      match rootFetch disk mydata root with
      | none => []
      | some (dirPtr, scan) =>
        rootEntriesReads disk mydata name isdir root.rootCluster dirPtr mydata.direntsPerBlock scan ++
          match rootEntries disk mydata name isdir root.rootCluster dirPtr mydata.direntsPerBlock
            scan with
          | .more scan =>
            rootAdvanceReads mydata { root with scan := scan } ++
              match rootAdvance disk mydata rootdirSize { root with scan := scan } with
              | none => []
              | some root => rootLoopReads rootdirSize name isdir fuel root
          | _ => []

/-- The reads of the loop over the entries of a cluster. -/
def subEntriesReads (name : List UInt8) (curclust : Nat) : Nat → Scan → List Request
  | 0, _ => []
  | entries + 1, scan =>
    entryReads disk mydata curclust 0 scan ++
      match subEntry disk mydata name curclust scan with
      | .more scan => subEntriesReads name curclust entries scan
      | _ => []

/-- The reads of `get_dentfromdir`. -/
def dentfromdirReads (name : List UInt8) : Nat → Nat → FatCache → List Request
  | 0, _, _ => []
  | fuel + 1, curclust, cache =>
    .directory ::
      let (ok, block) := getCluster disk mydata curclust 0 mydata.bytesperclust Memory.blank
      if !ok then []
      else
        subEntriesReads disk mydata name curclust (mydata.bytesperclust / direntSize)
            ⟨block, 0, cache⟩ ++
          match subEntries disk mydata name curclust (mydata.bytesperclust / direntSize)
            ⟨block, 0, cache⟩ with
          | .more scan =>
            fatentReads mydata scan.cache curclust ++
              let (curclust, cache) := getFatent disk mydata scan.cache curclust
              if checkClust curclust mydata.fatsize then []
              else dentfromdirReads name fuel curclust cache
          | _ => []

/-- The reads of the loop over the directories of a path. -/
def descendReads : Nat → List UInt8 → Record → FatCache → List Request
  | 0, _, _, _ => []
  | fuel + 1, subname, dent, cache =>
    let isdir := subname.any isdirdelim
    let start := dent.dirEntry.startClust mydata.fatsize
    dentfromdirReads disk mydata (subname.takeWhile (! isdirdelim ·)) fuel start cache ++
      match getDentfromdir disk mydata (subname.takeWhile (! isdirdelim ·)) fuel start cache with
      | some (.found dent cache) =>
        if isdir then
          if dent.attr &&& attrDir = 0 then []
          else descendReads fuel ((subname.dropWhile (! isdirdelim ·)).dropWhile isdirdelim) dent cache
        else []
      | _ => []

/-! ## Files -/

/-- The reads on the way to the cluster at `pos`. -/
def skipClustersReads [mydata.Clustered] (cache : FatCache) (curclust pos actsize : Nat) :
    List Request :=
  if _more : actsize ≤ pos then
    fatentReads mydata cache curclust ++
      let (curclust, cache) := getFatent disk mydata cache curclust
      if checkClust curclust mydata.fatsize then []
      else skipClustersReads cache curclust pos (actsize + mydata.bytesperclust)
  else []
termination_by pos + 1 - actsize
decreasing_by
  have positive : 0 < mydata.bytesperclust := mydata.nonempty
  omega

/-- The reads of the search for consecutive clusters. -/
def findRunReads [mydata.Clustered] (cache : FatCache) (endclust actsize filesize : Nat) :
    List Request :=
  if _more : actsize < filesize then
    fatentReads mydata cache endclust ++
      let (newclust, cache) := getFatent disk mydata cache endclust
      if UInt32.ofNat newclust - 1 ≠ UInt32.ofNat endclust then []
      else if checkClust newclust mydata.fatsize then []
      else findRunReads cache newclust (actsize + mydata.bytesperclust) filesize
  else []
termination_by filesize - actsize
decreasing_by
  have positive : 0 < mydata.bytesperclust := mydata.nonempty
  omega

/-- The reads of the loop of `get_contents`, but for those into the buffer of its caller. -/
def readRunsReads [mydata.Clustered] (cache : FatCache) (curclust filesize buffer : Nat)
    (memory : Memory) : List Request :=
  findRunReads disk mydata cache curclust mydata.bytesperclust filesize ++
    match _found : findRun disk mydata cache curclust mydata.bytesperclust filesize with
    | (cache, .getit endclust actsize) =>
      let (ok, memory) := getCluster disk mydata curclust buffer (actsize % 2 ^ 32) memory
      if !ok then []
      else
        fatentReads mydata cache endclust ++
          let (curclust, cache) := getFatent disk mydata cache endclust
          if checkClust curclust mydata.fatsize then []
          else readRunsReads cache curclust (filesize - actsize) (buffer + actsize) memory
    | _ => []
termination_by filesize
decreasing_by
  have positive : 0 < mydata.bytesperclust := mydata.nonempty
  have bounds := findRun_getit _found
  omega

/-- The reads of `get_contents` from the cluster at `pos` on. -/
def contentsFromReads [mydata.Clustered] (cache : FatCache) (curclust filesize pos buffer : Nat)
    (memory : Memory) : List Request :=
  if pos = 0 then readRunsReads disk mydata cache curclust filesize buffer memory
  else
    let actsize := min filesize mydata.bytesperclust
    .part (actsize % 2 ^ 32) ::
      let (ok, block) := getCluster disk mydata curclust 0 (actsize % 2 ^ 32) Memory.blank
      if !ok then []
      else
        let filesize := filesize - actsize
        let actsize := actsize - pos
        let memory := memory.store buffer (block.load pos actsize)
        if filesize = 0 then []
        else
          fatentReads mydata cache curclust ++
            let (curclust, cache) := getFatent disk mydata cache curclust
            if checkClust curclust mydata.fatsize then []
            else readRunsReads disk mydata cache curclust filesize (buffer + actsize) memory

/-- The reads of `get_contents`. -/
def contentsReads [mydata.Clustered] (cache : FatCache) (dent : DirEntry)
    (pos buffer maxsize : Nat) (memory : Memory) : List Request :=
  let filesize := dent.size.toNat
  if filesize ≤ pos then []
  else
    let filesize := if 0 < maxsize ∧ pos + maxsize < filesize then pos + maxsize else filesize
    skipClustersReads disk mydata cache (dent.startClust mydata.fatsize) pos mydata.bytesperclust ++
      match skipClusters disk mydata cache (dent.startClust mydata.fatsize) pos
        mydata.bytesperclust with
      | (_, none) => []
      | (cache, some (curclust, actsize)) =>
        let actsize := actsize - mydata.bytesperclust
        contentsFromReads disk mydata cache curclust (filesize - actsize) (pos - actsize) buffer memory

end Reads

def searchPathReads (disk : DiskRead) (mounted : Mounted) (path : List UInt8) (fuel : Nat) :
    List Request :=
  let isdir := path.any isdirdelim
  let name := path.takeWhile (! isdirdelim ·)
  rootLoopReads disk mounted.mydata mounted.rootdirSize name isdir fuel mounted.rootScan ++
    match rootLoop disk mounted.mydata mounted.rootdirSize name isdir fuel mounted.rootScan with
    | some (.found dent cache) =>
      if isdir then
        descendReads disk mounted.mydata fuel
          ((path.dropWhile (! isdirdelim ·)).dropWhile isdirdelim) dent cache
      else []
    | _ => []

/-- The reads of `do_fat_read_at` on a volume that is set up, for as long as there is fuel. -/
def fatReadAtReads (disk : DiskRead) (mounted : Mounted) [mounted.mydata.Clustered]
    (filename : List UInt8) (pos buffer maxsize : Nat) (dogetsize : Bool) (memory : Memory)
    (fuel : Nat) : List Request :=
  let path := downcase (filename.dropWhile isdirdelim)
  if fnamecopySize ≤ path.length then []
  else if path = [] then []
  else
    searchPathReads disk mounted path fuel ++
      match searchPath disk mounted path fuel with
      | some (.found dent cache) =>
        if dogetsize then []
        else contentsReads disk mounted.mydata cache dent.dirEntry pos buffer maxsize memory
      | _ => []

/-! ## Cluster numbers -/

/-- The largest number that `START` can be. -/
def lastEntry : FatSize → Nat
  | .fat32 => 2 ^ 32 - 1
  | _ => 2 ^ 16 - 1

def Request.Possible (mydata : Fsdata) : Request → Prop
  | .table entry => entry ≤ lastEntry mydata.fatsize
  | .root dirPtr => dirPtr = 0 ∨ mydata.fatsize ≠ .fat32 ∧ dirPtr = mydata.sectSize
  | .part size => size ≤ mydata.bytesperclust
  | _ => True

theorem checked_le {x : Nat} {fatsize : FatSize} (valid : ¬checkClust x fatsize = true) :
    x ≤ lastEntry fatsize := by
  unfold checkClust at valid
  rw [decide_eq_true_eq, not_or] at valid
  cases fatsize <;> simp only [lastEntry] at valid ⊢ <;> omega

theorem startClust_le (dent : DirEntry) (fatsize : FatSize) :
    dent.startClust fatsize ≤ lastEntry fatsize := by
  have low := dent.start.toNat_lt
  have high := dent.starthi.toNat_lt
  cases fatsize <;> simp [DirEntry.startClust, lastEntry] <;> omega

section Possible

variable {disk : DiskRead} {mydata : Fsdata} {cache : FatCache} {curclust : Nat} {request : Request}

theorem fatentReads_possible (low : curclust ≤ lastEntry mydata.fatsize)
    (asked : request ∈ fatentReads mydata cache curclust) : request.Possible mydata := by
  unfold fatentReads at asked
  split at asked
  · cases asked
  · rw [List.mem_singleton] at asked
    rw [asked]
    exact low

variable {start fuel actsize pos filesize buffer : Nat} {scan : Scan} {name : List UInt8}
   {memory : Memory}

theorem vfatnameReads_possible {cluster : Memory} {retdent : Nat}
    (low : curclust ≤ lastEntry mydata.fatsize)
    (asked : request ∈ vfatnameReads disk mydata cache curclust cluster start retdent) :
    request.Possible mydata := by
  simp only [vfatnameReads] at asked
  generalize start + mydata.sectSize * (if curclust = 0 then prefetchBlocks else mydata.clustSize) =
    buflimit at asked
  split at asked
  · cases asked
  split at asked
  · cases asked
  split at asked
  · cases asked
  split at asked
  · cases asked
  rcases List.mem_append.mp asked with table | behind
  · exact fatentReads_possible low table
  · split at behind
    · cases behind
    · rw [List.mem_singleton] at behind
      rw [behind]
      trivial

theorem entryReads_possible (low : curclust ≤ lastEntry mydata.fatsize)
    (asked : request ∈ entryReads disk mydata curclust start scan) : request.Possible mydata := by
  simp only [entryReads] at asked
  split at asked
  · cases asked
  split at asked
  · split at asked
    · exact vfatnameReads_possible low asked
    · cases asked
  · cases asked

theorem rootEntriesReads_possible {isdir : Bool} {entries : Nat}
    (low : curclust ≤ lastEntry mydata.fatsize)
    (asked : request ∈ rootEntriesReads disk mydata name isdir curclust start entries scan) :
    request.Possible mydata := by
  induction entries generalizing scan with
  | zero => cases asked
  | succ entries ih =>
    rw [rootEntriesReads] at asked
    rcases List.mem_append.mp asked with here | further
    · exact entryReads_possible low here
    · split at further
      · exact ih further
      · cases further

theorem subEntriesReads_possible {entries : Nat} (low : curclust ≤ lastEntry mydata.fatsize)
    (asked : request ∈ subEntriesReads disk mydata name curclust entries scan) :
    request.Possible mydata := by
  induction entries generalizing scan with
  | zero => cases asked
  | succ entries ih =>
    rw [subEntriesReads] at asked
    rcases List.mem_append.mp asked with here | further
    · exact entryReads_possible low here
    · split at further
      · exact ih further
      · cases further

theorem rootAdvance_cluster {rootdirSize : Nat} {root next : RootScan}
    (low : root.rootCluster ≤ lastEntry mydata.fatsize)
    (advance : rootAdvance disk mydata rootdirSize root = some next) :
    next.rootCluster ≤ lastEntry mydata.fatsize := by
  simp only [rootAdvance] at advance
  cases size : mydata.fatsize <;> simp only [size] at advance low <;> split at advance
  · cases advance
  · cases advance
    exact low
  · cases advance
  · cases advance
    exact low
  · split at advance
    · cases advance
    · rename_i valid
      cases advance
      exact checked_le valid
  · cases advance
    exact low

/-- The reads of the root directory. -/
theorem rootLoopReads_possible {rootdirSize : Nat} {isdir : Bool} {root : RootScan}
    (low : root.rootCluster ≤ lastEntry mydata.fatsize)
    (asked : request ∈ rootLoopReads disk mydata rootdirSize name isdir fuel root) :
    request.Possible mydata := by
  induction fuel generalizing root with
  | zero => cases asked
  | succ fuel ih =>
    rw [rootLoopReads] at asked
    rcases List.mem_append.mp asked with fetched | later
    · simp only [rootFetchReads] at fetched
      split at fetched
      · cases fetched
      · rw [List.mem_singleton] at fetched
        rw [fetched]
        simp only [Request.Possible]
        split
        · exact .inl rfl
        · rename_i other
          exact .inr ⟨fun fat32 => other (.inl fat32), rfl⟩
    split at later
    · cases later
    rcases List.mem_append.mp later with entries | later
    · exact rootEntriesReads_possible low entries
    split at later
    · rcases List.mem_append.mp later with table | later
      · unfold rootAdvanceReads at table
        split at table
        · exact fatentReads_possible low table
        · cases table
      split at later
      · cases later
      · rename_i advance
        exact ih (rootAdvance_cluster (by exact low) advance) later
    · cases later

theorem dentfromdirReads_possible (low : curclust ≤ lastEntry mydata.fatsize)
    (asked : request ∈ dentfromdirReads disk mydata name fuel curclust cache) :
    request.Possible mydata := by
  induction fuel generalizing curclust cache with
  | zero => cases asked
  | succ fuel ih =>
    simp only [dentfromdirReads] at asked
    rcases List.mem_cons.mp asked with rfl | later
    · trivial
    split at later
    · cases later
    rcases List.mem_append.mp later with entries | later
    · exact subEntriesReads_possible low entries
    split at later
    · rcases List.mem_append.mp later with table | later
      · exact fatentReads_possible low table
      split at later
      · cases later
      · rename_i valid
        exact ih (checked_le valid) later
    · cases later

theorem descendReads_possible {subname : List UInt8} {dent : Record}
    (asked : request ∈ descendReads disk mydata fuel subname dent cache) :
    request.Possible mydata := by
  induction fuel generalizing subname dent cache with
  | zero => cases asked
  | succ fuel ih =>
    rw [descendReads] at asked
    rcases List.mem_append.mp asked with here | further
    · exact dentfromdirReads_possible (startClust_le _ _) here
    split at further
    · split at further
      · split at further
        · cases further
        · exact ih further
      · cases further
    · cases further

variable [mydata.Clustered]

theorem skipClustersReads_possible (low : curclust ≤ lastEntry mydata.fatsize)
    (asked : request ∈ skipClustersReads disk mydata cache curclust pos actsize) :
    request.Possible mydata := by
  fun_induction skipClustersReads disk mydata cache curclust pos actsize with
  | case1 cache curclust actsize _ ih =>
    rcases List.mem_append.mp asked with table | later
    · exact fatentReads_possible low table
    simp only at later ih
    split at later
    · cases later
    · rename_i valid
      exact ih _ _ (checked_le valid) later
  | case2 => cases asked

theorem skipClusters_cluster {size cluster : Nat} {after : FatCache}
    (low : curclust ≤ lastEntry mydata.fatsize)
    (ran : skipClusters disk mydata cache curclust pos actsize = (after, some (cluster, size))) :
    cluster ≤ lastEntry mydata.fatsize := by
  fun_induction skipClusters disk mydata cache curclust pos actsize with
  | case1 => cases ran
  | case2 _ _ _ _ _ _ _ valid ih => exact ih (checked_le valid) ran
  | case3 =>
    cases ran
    exact low

theorem findRunReads_possible {endclust : Nat} (low : endclust ≤ lastEntry mydata.fatsize)
    (asked : request ∈ findRunReads disk mydata cache endclust actsize filesize) :
    request.Possible mydata := by
  fun_induction findRunReads disk mydata cache endclust actsize filesize with
  | case1 cache endclust actsize _ ih =>
    rcases List.mem_append.mp asked with table | later
    · exact fatentReads_possible low table
    simp only at later ih
    split at later
    · cases later
    split at later
    · cases later
    · rename_i valid
      exact ih _ _ (checked_le valid) later
  | case2 => cases asked

theorem findRun_cluster {endclust last size : Nat} {after : FatCache}
    (low : endclust ≤ lastEntry mydata.fatsize)
    (found : findRun disk mydata cache endclust actsize filesize = (after, .getit last size)) :
    last ≤ lastEntry mydata.fatsize := by
  fun_induction findRun disk mydata cache endclust actsize filesize with
  | case1 =>
    cases found
    exact low
  | case2 => cases found
  | case3 _ _ _ _ _ _ _ _ valid ih => exact ih (checked_le valid) found
  | case4 => cases found

theorem readRunsReads_possible (low : curclust ≤ lastEntry mydata.fatsize)
    (asked : request ∈ readRunsReads disk mydata cache curclust filesize buffer memory) :
    request.Possible mydata := by
  fun_induction readRunsReads disk mydata cache curclust filesize buffer memory with
  | case1 cache curclust filesize buffer memory ih =>
    rcases List.mem_append.mp asked with search | later
    · exact findRunReads_possible low search
    split at later
    · rename_i after last actsize found
      simp only at later
      split at later
      · cases later
      rcases List.mem_append.mp later with table | later
      · exact fatentReads_possible (findRun_cluster low found) table
      split at later
      · cases later
      · rename_i valid
        exact ih after last actsize found _ _ _ (checked_le valid) later
    · cases later

theorem contentsFromReads_possible (low : curclust ≤ lastEntry mydata.fatsize)
    (asked : request ∈ contentsFromReads disk mydata cache curclust filesize pos buffer memory) :
    request.Possible mydata := by
  simp only [contentsFromReads] at asked
  split at asked
  · exact readRunsReads_possible low asked
  rcases List.mem_cons.mp asked with rfl | later
  · exact Nat.le_trans (Nat.mod_le _ _) (Nat.min_le_right _ _)
  split at later
  · cases later
  split at later
  · cases later
  rcases List.mem_append.mp later with table | later
  · exact fatentReads_possible low table
  split at later
  · cases later
  · rename_i valid
    exact readRunsReads_possible (checked_le valid) later

theorem contentsReads_possible {dent : DirEntry} {maxsize : Nat}
    (asked : request ∈ contentsReads disk mydata cache dent pos buffer maxsize memory) :
    request.Possible mydata := by
  simp only [contentsReads] at asked
  split at asked
  · cases asked
  rcases List.mem_append.mp asked with skipped | later
  · exact skipClustersReads_possible (startClust_le _ _) skipped
  split at later
  · cases later
  · rename_i ran
    exact contentsFromReads_possible (skipClusters_cluster (startClust_le _ _) ran) later

end Possible

variable {mounted : Mounted}

theorem mount_bounds {disk : DiskRead} {blksz : Nat} (mount : mount disk blksz = some mounted) :
    mounted.rootCluster ≤ lastEntry mounted.mydata.fatsize ∧ mounted.mydata.sectSize = blksz := by
  simp only [Fat.mount] at mount
  split at mount
  · cases mount
  rename_i bs boot
  have cluster : bs.rootCluster < 2 ^ 32 := by
    simp only [readBootsectandvi] at boot
    split at boot
    · cases boot
    · obtain ⟨fatsize, -, rfl⟩ := Option.map_eq_some_iff.mp boot
      exact UInt32.toNat_lt _
  split at mount
  · cases mount
  rename_i same
  split at mount
  · cases mount
    refine ⟨?_, Classical.not_not.mp same⟩
    dsimp only
    split
    · rename_i fat32
      rw [fat32]
      exact Nat.le_sub_one_of_lt cluster
    · exact Nat.zero_le _
  · cases mount

theorem fatReadAtReads_possible [mounted.mydata.Clustered] {disk : DiskRead} {filename : List UInt8}
    {pos buffer maxsize : Nat} {dogetsize : Bool} {memory : Memory} {fuel : Nat} {request : Request}
    (low : mounted.rootCluster ≤ lastEntry mounted.mydata.fatsize)
    (asked : request ∈ fatReadAtReads disk mounted filename pos buffer maxsize dogetsize memory
      fuel) : request.Possible mounted.mydata := by
  simp only [fatReadAtReads] at asked
  split at asked
  · cases asked
  split at asked
  · cases asked
  rcases List.mem_append.mp asked with search | later
  · simp only [searchPathReads] at search
    rcases List.mem_append.mp search with root | below
    · exact rootLoopReads_possible (by exact low) root
    split at below
    · split at below
      · exact descendReads_possible below
      · cases below
    · cases below
  · split at later
    · split at later
      · cases later
      · exact contentsReads_possible later
    · cases later

/-! ## Sizes -/

section Sizes

variable {mydata : Fsdata} (large : 512 ≤ mydata.sectSize)

include large in
theorem startblock_lt {entry : Nat} (low : entry ≤ lastEntry mydata.fatsize) :
    entry / mydata.bufEntries * fatbufBlocks < 2 ^ 31 := by
  have entries : 768 ≤ mydata.bufEntries := by
    unfold Fsdata.bufEntries Fsdata.fatbufSize fatbufBlocks
    split <;> omega
  have last : lastEntry mydata.fatsize < 2 ^ 32 := by
    cases mydata.fatsize <;> decide
  have windows : entry / mydata.bufEntries ≤ entry / 768 := Nat.div_le_div_left entries (by decide)
  unfold fatbufBlocks
  omega

include large in
/-- A read fits its buffer exactly if it is inside. -/
theorem fits_iff_inside {request : Request} (possible : request.Possible mydata) :
    request.Fits mydata ↔ request.Inside mydata := by
  have sector := mydata.sector
  have whole : mydata.bytesperclust / mydata.sectSize = mydata.clustSize := by
    exact Nat.mul_div_cancel _ sector
  cases request with
  | table entry =>
    have room := startblock_lt large possible
    have range := mydata.fatlength.toNat_lt
    simp only [Request.Fits, Request.Inside, Request.offset, Request.count, Request.capacity,
      Fsdata.fatbufSize, Nat.zero_add]
    rw [Nat.mul_comm mydata.sectSize, Nat.mul_le_mul_right_iff sector]
    generalize entry / mydata.bufEntries * fatbufBlocks = startblock at room
    have same : (UInt32.ofNat startblock).toNat = startblock := by
      rw [UInt32.toNat_ofNat']
      exact Nat.mod_eq_of_lt (by omega)
    have wraps := UInt32.toNat_sub mydata.fatlength (UInt32.ofNat startblock)
    rw [same] at wraps
    unfold fatbufBlocks
    split <;> omega
  | root dirPtr =>
    simp only [Request.Fits, Request.Inside, Request.offset, Request.count, Request.capacity]
    split <;> rfl
  | directory =>
    simp only [Request.Fits, Request.Inside, Request.offset, Request.count, Request.capacity, whole,
      Nat.zero_add]
  | longName =>
    simp only [Request.Fits, Request.Inside, Request.offset, Request.count, Request.capacity, whole,
      Nat.zero_add]
  | part size =>
    simp only [Request.Fits, Request.Inside, Request.offset, Request.count, Request.capacity,
      Nat.zero_add]
    have split := Nat.div_add_mod size mydata.sectSize
    rw [Nat.mul_comm] at split
    omega

end Sizes

/-- The reads of `do_fat_read_at` fit their buffers exactly if all of them are inside: no read of
the table starts behind the table, and the clusters that are read fit the static buffers. -/
theorem fatReadAtReads_fit_iff (disk : DiskRead) (blksz : Nat) (mounted : Mounted)
    [mounted.mydata.Clustered] (filename : List UInt8) (pos buffer maxsize : Nat) (dogetsize : Bool)
    (memory : Memory) (fuel : Nat) (mount : mount disk blksz = some mounted) (device : 512 ≤ blksz) :
    (∀ request ∈ fatReadAtReads disk mounted filename pos buffer maxsize dogetsize memory fuel,
        request.Fits mounted.mydata) ↔
      ∀ request ∈ fatReadAtReads disk mounted filename pos buffer maxsize dogetsize memory fuel,
        request.Inside mounted.mydata := by
  obtain ⟨low, sectors⟩ := mount_bounds mount
  apply forall₂_congr
  intro request asked
  exact fits_iff_inside (sectors ▸ device) (fatReadAtReads_possible low asked)

/-! ## A volume -/

/-- The entry of a directory `A` in a cluster behind the table. -/
def farDent : Record :=
  [0x41, 0x20, 0x20, 0x20, 0x20, 0x20, 0x20, 0x20, 0x20, 0x20, 0x20, 0x10, 0, 0, 0, 0, 0, 0, 0, 0,
    0, 0, 0, 0, 0, 0, 0, 0x10, 0, 0, 0, 0]

/-- A FAT16 volume with this directory: a boot sector, a table of one sector, the root directory,
and deleted entries only in the cluster, number 4096. -/
def farVolume : Memory :=
  let boot := (Memory.blank.store 11 [0x00, 0x02, 1, 1, 0, 1, 16, 0, 0, 0, 0, 1, 0]).store 54
    fat16Sign
  (boot.store 1024 farDent).fill (4097 * 512) 512 0xe5

def farDisk : DiskRead := fun block count => (count, farVolume.load (block * 512) (count * 512))

def farMounted : Mounted := ⟨⟨.fat16, 1, 1, 2, 512, 1, 1, usualSector⟩, 0, 1⟩

instance : farMounted.mydata.Clustered := ⟨Nat.one_pos⟩

theorem far_mount : mount farDisk 512 = some farMounted := by
  set_option maxRecDepth 100000 in rfl

/-- The reads for `a` fit. -/
theorem fatReadAtReads_fit_a : mount farDisk 512 = some farMounted ∧
    ∀ request ∈ fatReadAtReads farDisk farMounted [0x61] 0 0 0 true Memory.blank 1,
      request.Fits farMounted.mydata := by
  refine ⟨far_mount, ?_⟩
  rw [fatReadAtReads_fit_iff farDisk 512 farMounted [0x61] 0 0 0 true Memory.blank 1 far_mount
    (by decide)]
  have asked : fatReadAtReads farDisk farMounted [0x61] 0 0 0 true Memory.blank 1 = [.root 0] := by
    decide +kernel
  rw [asked, List.forall_mem_singleton]
  simp [Request.Inside, farMounted, prefetchBlocks, maxClustsize]

/-- The reads for `a/b` do not: 2³² − 11 sectors of the table are read. -/
theorem fatReadAtReads_behind :
    ¬∀ (disk : DiskRead) (blksz : Nat) (mounted : Mounted) [mounted.mydata.Clustered]
      (filename : List UInt8) (pos buffer maxsize : Nat) (dogetsize : Bool) (memory : Memory)
      (fuel : Nat),
      mount disk blksz = some mounted → 512 ≤ blksz →
      ∀ request ∈ fatReadAtReads disk mounted filename pos buffer maxsize dogetsize memory fuel,
        request.Fits mounted.mydata := by
  intro every
  have fits := every farDisk 512 farMounted [0x61, 0x2f, 0x62] 0 0 0 true Memory.blank 3 far_mount
    (by decide) (.table 4096) (by decide +kernel)
  revert fits
  decide +kernel

end HrppBoot.Fat
