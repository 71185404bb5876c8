import HrppBoot.Fat.Contents

/-!
# Directories

A directory is a sequence of records of 32 bytes: entries with a short name, and before an entry
the slots of its long name, last part first. `do_fat_read_at` scans the root directory in a buffer
that holds one cluster (or, for FAT12 and FAT16, a few sectors), and subdirectories with
`get_dentfromdir`. Where the code would read before its buffer, or write behind the buffer for a
long name, the model has the result `wild`. A chain that never ends is scanned for as long as there
is fuel. The listing of directories on the console is left out: the model is for `dols == LS_NO`.
-/

namespace HrppBoot.Fat

open ByteMemory

/-! ## Names -/

/-- `isupper`, by `_ctype`. -/
def isupper (c : UInt8) : Bool := (0x41 ≤ c ∧ c ≤ 0x5a) ∨ (0xc0 ≤ c ∧ c ≤ 0xde ∧ c ≠ 0xd7)

def tolower (c : UInt8) : UInt8 := if isupper c then c + 0x20 else c

def downcase (name : List UInt8) : List UInt8 := name.map tolower

def deletedFlag : UInt8 := 0xe5

def aRing : UInt8 := 0x05

def lastLongEntryMask : UInt8 := 0x40

def attrVolume : UInt8 := 8

def attrDir : UInt8 := 16

def attrVfat : UInt8 := 15

def vfatMaxseq : Nat := 9

def vfatMaxlenBytes : Nat := 256

def prefetchBlocks : Nat := 2

/-- `sizeof(dir_entry)` -/
def direntSize : Nat := 32

/-- The bytes of a directory record. -/
abbrev Record := List UInt8

namespace Record

/-- A byte of a record. -/
def byte (record : Record) (i : Nat) : UInt8 := record.getD i 0

def attr (record : Record) : UInt8 := record.byte 11

/-- `name`: the eight characters before the dot. -/
def base (record : Record) : List UInt8 := record.take 8

/-- `ext`: the three characters after it. -/
def ext (record : Record) : List UInt8 := (record.drop 8).take 3

/-- The half-word at a byte of a record. -/
def half (record : Record) (i : Nat) : Nat := (record.byte i).toNat + 256 * (record.byte (i + 1)).toNat

/-- What `get_contents` needs of an entry. -/
def dirEntry (record : Record) : DirEntry where
  starthi := UInt16.ofNat (record.half 20)
  start := UInt16.ofNat (record.half 26)
  size := UInt32.ofNat (record.half 28 + 65536 * record.half 30)

/-- `id` of a slot without `LAST_LONG_ENTRY_MASK`. -/
def seq (record : Record) : UInt8 := record.byte 0 &&& 0xbf

/-- Where a slot has its characters. -/
def slotPositions : List Nat := [1, 3, 5, 7, 9, 14, 16, 18, 20, 22, 24, 28, 30]

/-- The characters of a slot, as `slot2str` reads them: the low bytes of the UTF-16 code units. -/
def slotChars (record : Record) : List UInt8 := slotPositions.map record.byte

end Record

/-- A character that ends a part of a short name. -/
def endsPart (c : UInt8) : Bool := c = 0 ∨ c = 0x20

/-- The end of `get_name` and of `get_vfatname`: the special first characters, and lower case. -/
def finishName (name : List UInt8) : List UInt8 :=
  match name with
  | [] => []
  | c :: rest =>
    if c = deletedFlag then []
    else if c = aRing then downcase (deletedFlag :: rest)
    else downcase (c :: rest)

def getName (record : Record) : List UInt8 :=
  let base := record.base.takeWhile fun c => !endsPart c
  let ext := record.ext.takeWhile fun c => !endsPart c
  finishName (if endsPart (record.byte 8) then base else base ++ 0x2e :: ext)

/-- `slot2str`: the characters up to a NUL, and whether there is one. -/
def slot2str (record : Record) : List UInt8 × Bool :=
  (record.slotChars.takeWhile (· ≠ 0), record.slotChars.any (· = 0))

/-! ## Long names -/

/-- The first loop of `get_vfatname`: where it stops and `counter` there, or nothing if a slot is
out of order. -/
def skipSlots (cluster : Memory) (slotptr buflimit : Nat) : Nat → Option (Nat × Nat)
  | 0 => some (slotptr, 0)
  | counter + 1 =>
    if slotptr < buflimit then
      if (Record.seq (cluster.load slotptr direntSize)).toNat ≠ counter + 1 then none
      else skipSlots cluster (slotptr + direntSize) buflimit counter
    else some (slotptr, counter + 1)

/-- The loop over the slots in the next cluster. -/
def matchSlots (block : Memory) (slotptr2 : Nat) : Nat → Option Nat
  | 0 => some slotptr2
  | counter + 1 =>
    if (Record.seq (block.load slotptr2 direntSize)).toNat ≠ counter + 1 then none
    else matchSlots block (slotptr2 + direntSize) counter

/-- The characters of the first `count` slots of the next cluster, last slot first. -/
def collectBlock (block : Memory) : Nat → List UInt8
  | 0 => []
  | count + 1 => (slot2str (block.load (count * direntSize) direntSize)).1 ++ collectBlock block count

/-- The last loop of `get_vfatname`: the characters of the slots before `slotptr`, back to the last
part of the name. -/
def collectSlots (cluster : Memory) (slotptr : Nat) (lName : List UInt8) : Option (List UInt8) :=
  if _inside : slotptr < direntSize then none
  else
    let slot : Record := cluster.load (slotptr - direntSize) direntSize
    let lName := lName ++ (slot2str slot).1
    if (slot2str slot).2 then some lName
    else if slot.byte 0 &&& lastLongEntryMask ≠ 0 then some lName
    else collectSlots cluster (slotptr - direntSize) lName
termination_by slotptr
decreasing_by
  simp only [direntSize] at *
  omega

/-- What `get_vfatname` leaves. -/
structure Vfatname where
  lName : List UInt8
  cluster : Memory
  cache : FatCache

/-- The end of `get_vfatname`, with the real entry and the characters of the slots behind the
buffer. -/
def finishVfatname (cluster : Memory) (slotptr retdent : Nat) (realdent : Record)
    (behind : List UInt8) (cache : FatCache) : Option Vfatname :=
  match collectSlots cluster slotptr behind with
  | none => none
  | some lName =>
    if vfatMaxlenBytes ≤ lName.length then none
    else some ⟨finishName lName, cluster.store retdent realdent, cache⟩

/-- `get_vfatname` for the slot at `retdent`, in a buffer that starts at `start`. Its return value
is not looked at: where it fails the long name stays empty and the slot where it is. -/
def getVfatname (disk : DiskRead) (mydata : Fsdata) (cache : FatCache) (curclust : Nat)
    (cluster : Memory) (start retdent : Nat) : Option Vfatname :=
  let buflimit := start + mydata.sectSize * if curclust = 0 then prefetchBlocks else mydata.clustSize
  let counter := (Record.seq (cluster.load retdent direntSize)).toNat
  if vfatMaxseq < counter then some ⟨[], cluster, cache⟩
  else
    match skipSlots cluster retdent buflimit counter with
    | none => some ⟨[], cluster, cache⟩
    | some (slotptr, counter) =>
      if slotptr < buflimit then
        finishVfatname cluster slotptr retdent (cluster.load slotptr direntSize) [] cache
      else if curclust = 0 then some ⟨[], cluster, cache⟩
      else
        let (next, cache) := getFatent disk mydata cache curclust
        if checkClust next mydata.fatsize then some ⟨[], cluster, cache⟩
        else
          let (ok, block) := getCluster disk mydata next 0 mydata.bytesperclust Memory.blank
          if !ok then some ⟨[], cluster, cache⟩
          else
            match matchSlots block 0 counter with
            | none => some ⟨[], cluster, cache⟩
            | some slotptr2 =>
              finishVfatname cluster slotptr retdent (block.load slotptr2 direntSize)
                (collectBlock block (slotptr2 / direntSize)) cache

/-! ## Scanning -/

/-- The variables of a scan that change from entry to entry. -/
structure Scan where
  block : Memory
  dentptr : Nat
  cache : FatCache

/-- How a scan ends. -/
inductive ScanEnd (α : Type) where
  | found (dent : Record) (cache : FatCache)
  | absent
  | wild
  | more (state : α)

/-- What is done with an entry that is compared: the name does not match, or it does. -/
def compareEntry (name : List UInt8) (isdir : Bool) (scan : Scan) (lName : List UInt8) :
    ScanEnd Scan :=
  let dent : Record := scan.block.load scan.dentptr direntSize
  if name ≠ getName dent ∧ name ≠ lName then
    .more { scan with dentptr := scan.dentptr + direntSize }
  else if isdir ∧ dent.attr &&& attrDir = 0 then .absent
  else .found dent scan.cache

/-- The body of the loop over the entries of the root directory. -/
def rootEntry (disk : DiskRead) (mydata : Fsdata) (name : List UInt8) (isdir : Bool)
    (rootCluster start : Nat) (scan : Scan) : ScanEnd Scan :=
  let dent : Record := scan.block.load scan.dentptr direntSize
  if dent.byte 0 = deletedFlag then .more { scan with dentptr := scan.dentptr + direntSize }
  else if dent.attr &&& attrVolume ≠ 0 then
    if dent.attr &&& attrVfat = attrVfat ∧ dent.byte 0 &&& lastLongEntryMask ≠ 0 then
      match getVfatname disk mydata scan.cache rootCluster scan.block start scan.dentptr with
      | none => .wild
      | some vfat =>
        compareEntry name isdir ⟨vfat.cluster, scan.dentptr, vfat.cache⟩ vfat.lName
    else .more { scan with dentptr := scan.dentptr + direntSize }
  else if dent.byte 0 = 0 then .absent
  else compareEntry name isdir scan []

/-- The loop over the `DIRENTSPERBLOCK` entries of a sector. -/
def rootEntries (disk : DiskRead) (mydata : Fsdata) (name : List UInt8) (isdir : Bool)
    (rootCluster start : Nat) : Nat → Scan → ScanEnd Scan
  | 0, scan => .more scan
  | entries + 1, scan =>
    match rootEntry disk mydata name isdir rootCluster start scan with
    | .more scan => rootEntries disk mydata name isdir rootCluster start entries scan
    | done => done

/-- The variables of the loop over the sectors of the root directory. -/
structure RootScan where
  scan : Scan
  cursect : Nat
  bufferBlkCnt : Nat
  rootCluster : Nat
  firsttime : Bool

def Fsdata.direntsPerBlock (mydata : Fsdata) : Nat := mydata.sectSize / direntSize

/-- The start of a turn: the buffer is moved (FAT12, FAT16) and read, where it has to be. The result
is `dir_ptr` and the entries, or nothing if the read fails. -/
def rootFetch (disk : DiskRead) (mydata : Fsdata) (root : RootScan) : Option (Nat × Scan) :=
  let fat32 := mydata.fatsize = .fat32
  let dirPtr := if fat32 ∨ root.firsttime then 0 else mydata.sectSize
  let block := if fat32 ∨ root.firsttime then root.scan.block
    else root.scan.block.store 0 (root.scan.block.load dirPtr mydata.sectSize)
  if fat32 ∧ root.bufferBlkCnt ≠ 0 then some (dirPtr, { root.scan with block := block })
  else
    let (ret, bytes) := disk root.cursect (if fat32 then mydata.clustSize else prefetchBlocks)
    if ret < 0 then none
    else some (dirPtr, ⟨block.store dirPtr bytes, dirPtr, root.scan.cache⟩)

/-- The end of a turn: the next sector, or nothing at the end of the root directory. -/
def rootAdvance (disk : DiskRead) (mydata : Fsdata) (rootdirSize : Nat) (root : RootScan) :
    Option RootScan :=
  let bufferBlkCnt := root.bufferBlkCnt + 1
  match mydata.fatsize with
  | .fat32 =>
    if bufferBlkCnt = mydata.clustSize then
      let (nxtClust, cache) := getFatent disk mydata root.scan.cache root.rootCluster
      if checkClust nxtClust .fat32 then none
      else
        let nxtsect := ((mydata.dataBegin + nxtClust * mydata.clustSize) % 2 ^ 32).toNat
        some ⟨{ root.scan with cache := cache }, nxtsect, 0, nxtClust, false⟩
    else some { root with bufferBlkCnt := bufferBlkCnt, firsttime := false }
  | _ =>
    let cursect := (root.cursect + 1) % 2 ^ 32
    if rootdirSize ≤ (UInt32.ofNat cursect - UInt32.ofNat mydata.rootdirSect).toNat then none
    else some { root with
      cursect := cursect
      bufferBlkCnt := if bufferBlkCnt = prefetchBlocks then 0 else bufferBlkCnt
      firsttime := false }

/-- The loop over the sectors of the root directory. -/
def rootLoop (disk : DiskRead) (mydata : Fsdata) (rootdirSize : Nat) (name : List UInt8)
    (isdir : Bool) : Nat → RootScan → Option (ScanEnd Empty)
  | 0, _ => none
  | fuel + 1, root =>
    match rootFetch disk mydata root with
    | none => some .absent
    | some (dirPtr, scan) =>
      match rootEntries disk mydata name isdir root.rootCluster dirPtr mydata.direntsPerBlock scan with
      | .found dent cache => some (.found dent cache)
      | .absent => some .absent
      | .wild => some .wild
      | .more scan =>
        match rootAdvance disk mydata rootdirSize { root with scan := scan } with
        | none => some .absent
        | some root => rootLoop disk mydata rootdirSize name isdir fuel root

/-- The body of the loop of `get_dentfromdir`. -/
def subEntry (disk : DiskRead) (mydata : Fsdata) (name : List UInt8) (curclust : Nat) (scan : Scan) :
    ScanEnd Scan :=
  let dent : Record := scan.block.load scan.dentptr direntSize
  let compare (scan : Scan) (lName : List UInt8) : ScanEnd Scan :=
    if Record.byte (scan.block.load scan.dentptr direntSize) 0 = 0 then .absent
    else compareEntry name false scan lName
  if dent.byte 0 = deletedFlag then .more { scan with dentptr := scan.dentptr + direntSize }
  else if dent.attr &&& attrVolume ≠ 0 then
    if dent.attr &&& attrVfat = attrVfat ∧ dent.byte 0 &&& lastLongEntryMask ≠ 0 then
      match getVfatname disk mydata scan.cache curclust scan.block 0 scan.dentptr with
      | none => .wild
      | some vfat => compare ⟨vfat.cluster, scan.dentptr, vfat.cache⟩ vfat.lName
    else .more { scan with dentptr := scan.dentptr + direntSize }
  else compare scan []

/-- The loop over the `DIRENTSPERCLUST` entries of a cluster. -/
def subEntries (disk : DiskRead) (mydata : Fsdata) (name : List UInt8) (curclust : Nat) :
    Nat → Scan → ScanEnd Scan
  | 0, scan => .more scan
  | entries + 1, scan =>
    match subEntry disk mydata name curclust scan with
    | .more scan => subEntries disk mydata name curclust entries scan
    | done => done

def getDentfromdir (disk : DiskRead) (mydata : Fsdata) (name : List UInt8) :
    Nat → Nat → FatCache → Option (ScanEnd Empty)
  | 0, _, _ => none
  | fuel + 1, curclust, cache =>
    let (ok, block) := getCluster disk mydata curclust 0 mydata.bytesperclust Memory.blank
    if !ok then some .absent
    else
      match subEntries disk mydata name curclust (mydata.bytesperclust / direntSize)
        ⟨block, 0, cache⟩ with
      | .found dent cache => some (.found dent cache)
      | .absent => some .absent
      | .wild => some .wild
      | .more scan =>
        let (curclust, cache) := getFatent disk mydata scan.cache curclust
        if checkClust curclust mydata.fatsize then some .absent
        else getDentfromdir disk mydata name fuel curclust cache

/-! ## Paths -/

def isdirdelim (c : UInt8) : Bool := c = 0x2f ∨ c = 0x5c

/-- The loop over the directories of a path. -/
def descend (disk : DiskRead) (mydata : Fsdata) : Nat → List UInt8 → Record → FatCache →
    Option (ScanEnd Empty)
  | 0, _, _, _ => none
  | fuel + 1, subname, dent, cache =>
    let isdir := subname.any isdirdelim
    let start := dent.dirEntry.startClust mydata.fatsize
    match getDentfromdir disk mydata (subname.takeWhile (! isdirdelim ·)) fuel start cache with
    | some (.found dent cache) =>
      if isdir then
        if dent.attr &&& attrDir = 0 then some .absent
        else descend disk mydata fuel
          ((subname.dropWhile (! isdirdelim ·)).dropWhile isdirdelim) dent cache
      else some (.found dent cache)
    | other => other

/-- What `read_bootsectandvi` leaves of the boot sector. -/
structure BootSector where
  fatsize : FatSize
  sectorSize : Nat
  clusterSize : Nat
  reserved : Nat
  fats : Nat
  dirEntries : Nat
  fatLength : Nat
  fat32Length : UInt32
  rootCluster : Nat

def fat12Sign : List UInt8 := [0x46, 0x41, 0x54, 0x31, 0x32, 0x20, 0x20, 0x20]

def fat16Sign : List UInt8 := [0x46, 0x41, 0x54, 0x31, 0x36, 0x20, 0x20, 0x20]

def fat32Sign : List UInt8 := [0x46, 0x41, 0x54, 0x33, 0x32, 0x20, 0x20, 0x20]

/-- The FAT size, from `fat_length` and the sign of the volume information. -/
def bootFatsize (block : Memory) : Option FatSize :=
  if block.half 22 = 0 then
    if block.load 82 8 = fat32Sign then some .fat32 else none
  else if block.load 54 8 = fat12Sign then some .fat12
  else if block.load 54 8 = fat16Sign then some .fat16
  else none

def readBootsectandvi (disk : DiskRead) : Option BootSector :=
  let (ret, bytes) := disk 0 1
  if ret < 0 then none
  else
    let block := Memory.blank.store 0 bytes
    (bootFatsize block).map fun fatsize =>
      { fatsize := fatsize
        sectorSize := block.half 11
        clusterSize := (block 13).toNat
        reserved := block.half 14
        fats := (block 16).toNat
        dirEntries := block.half 17
        fatLength := block.half 22
        fat32Length := block.word32 36
        rootCluster := (block.word32 44).toNat }

/-- What the first part of `do_fat_read_at` sets up. -/
structure Mounted where
  mydata : Fsdata
  rootCluster : Nat
  rootdirSize : Nat

/-- The first part of `do_fat_read_at`, for a device with blocks of `blksz` bytes, which is not
zero. -/
def mount (disk : DiskRead) (blksz : Nat) : Option Mounted :=
  match readBootsectandvi disk with
  | none => none
  | some bs =>
    let fat32 := bs.fatsize = .fat32
    let fatlength := if fat32 then bs.fat32Length else UInt32.ofNat bs.fatLength
    let rootdirSect := (bs.reserved + fatlength.toNat * bs.fats) % 2 ^ 32
    let rootdirSize := if fat32 then 0 else bs.dirEntries * direntSize / bs.sectorSize
    if bs.sectorSize ≠ blksz then none
    else if sector : 0 < bs.sectorSize then
      let mydata : Fsdata :=
        { fatsize := bs.fatsize
          fatlength := fatlength
          fatSect := bs.reserved
          rootdirSect := rootdirSect
          sectSize := bs.sectorSize
          clustSize := bs.clusterSize
          dataBegin := rootdirSect + rootdirSize - bs.clusterSize * 2
          sector := sector }
      some ⟨mydata, if fat32 then bs.rootCluster else 0, rootdirSize⟩
    else none

/-- How `do_fat_read_at` ends. -/
inductive ReadAt where
  | failed
  | wild
  /-- `dogetsize`: it returns 0 with the size of the file. -/
  | size (size : Nat)
  /-- It returns what `get_contents` returns. -/
  | contents (contents : Contents)
  /-- The search has found a file whose clusters have no sectors: `get_contents` is left out. -/
  | unread

/-- The root directory before the first turn of its loop. -/
def Mounted.rootScan (mounted : Mounted) : RootScan where
  scan := ⟨Memory.blank, 0, ⟨Memory.blank, none⟩⟩
  cursect := mounted.mydata.rootdirSect
  bufferBlkCnt := 0
  rootCluster := mounted.rootCluster
  firsttime := true

/-- The entry of a path, without leading delimiters and in lower case. -/
def searchPath (disk : DiskRead) (mounted : Mounted) (path : List UInt8) (fuel : Nat) :
    Option (ScanEnd Empty) :=
  let isdir := path.any isdirdelim
  match rootLoop disk mounted.mydata mounted.rootdirSize (path.takeWhile (! isdirdelim ·)) isdir
    fuel mounted.rootScan with
  | some (.found dent cache) =>
    if isdir then
      descend disk mounted.mydata fuel
        ((path.dropWhile (! isdirdelim ·)).dropWhile isdirdelim) dent cache
    else some (.found dent cache)
  | other => other

/-- Size of `fnamecopy`. -/
def fnamecopySize : Nat := 2048

/-- `do_fat_read_at` with `dols == LS_NO`, for as long as there is fuel. -/
def doFatReadAt (disk : DiskRead) (blksz : Nat) (filename : List UInt8) (pos buffer maxsize : Nat)
    (dogetsize : Bool) (memory : Memory) (fuel : Nat) : Option ReadAt :=
  match mount disk blksz with
  | none => some .failed
  | some mounted =>
    let path := downcase (filename.dropWhile isdirdelim)
    if fnamecopySize ≤ path.length then some .wild
    else if path = [] then some .failed
    else
      (searchPath disk mounted path fuel).map fun
        | .found dent cache =>
          if dogetsize then .size dent.dirEntry.size.toNat
          else if sectors : 0 < mounted.mydata.clustSize then
            have : mounted.mydata.Clustered := ⟨sectors⟩
            .contents (getContents disk mounted.mydata cache dent.dirEntry pos buffer maxsize
              memory)
          else .unread
        | .wild => .wild
        | _ => .failed

end HrppBoot.Fat
