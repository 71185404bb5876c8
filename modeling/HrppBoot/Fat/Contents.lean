import HrppBoot.Fat.Volume
import Mathlib.Data.List.Range

/-!
# Contents of a file

`get_contents` follows the cluster chain of a file to a position, reads the rest of the cluster
there and then runs of consecutive clusters with one call of `get_cluster` each. `get_cluster`
reads whole sectors in place if the buffer is aligned, and one at a time if it is not. For a valid
chain the buffer gets exactly the bytes of the clusters, one after the other.
-/

namespace HrppBoot.Fat

open ByteMemory

/-! ## Clusters -/

def archDmaMinalign : Nat := 32

def maxClustsize : Nat := 65536

/-- `CHECK_CLUST`: whether a table entry is no cluster number. -/
def checkClust (x : Nat) (fatsize : FatSize) : Bool :=
  x ≤ 1 ∨ (match fatsize with
    | .fat32 => 0xffffff0
    | .fat16 => 0xfff0
    | .fat12 => 0xff0) ≤ x

def Fsdata.bytesperclust (mydata : Fsdata) : Nat := mydata.clustSize * mydata.sectSize

/-- First sector of a cluster; cluster 0 stands for the root directory. -/
def Fsdata.clusterSect (mydata : Fsdata) (clustnum : Nat) : Nat :=
  if 0 < clustnum then ((mydata.dataBegin + clustnum * mydata.clustSize) % 2 ^ 32).toNat
  else mydata.rootdirSect

/-- The variables of `get_cluster`. -/
structure Cursor where
  startsect : Nat
  buffer : Nat
  size : Nat
  memory : Memory

/-- The loop of `get_cluster` for a misaligned buffer. -/
def readSectors (disk : DiskRead) (mydata : Fsdata) (cursor : Cursor) : Bool × Cursor :=
  if _more : mydata.sectSize ≤ cursor.size then
    let (ret, tmpbuf) := disk cursor.startsect 1
    let startsect := (cursor.startsect + 1) % 2 ^ 32
    if ret ≠ 1 then (false, { cursor with startsect := startsect })
    else readSectors disk mydata ⟨startsect, cursor.buffer + mydata.sectSize,
      cursor.size - mydata.sectSize,
      cursor.memory.store cursor.buffer (tmpbuf.take mydata.sectSize)⟩
  else (true, cursor)
termination_by cursor.size
decreasing_by
  have positive := mydata.sector
  omega

/-- The other branch of `get_cluster`: one read for all whole sectors. -/
def readWhole (disk : DiskRead) (mydata : Fsdata) (cursor : Cursor) : Bool × Cursor :=
  let idx := cursor.size / mydata.sectSize
  let (ret, bytes) := disk cursor.startsect idx
  let memory := cursor.memory.store cursor.buffer bytes
  if ret ≠ idx then (false, { cursor with memory := memory })
  else (true, ⟨(cursor.startsect + idx) % 2 ^ 32, cursor.buffer + idx * mydata.sectSize,
    cursor.size - idx * mydata.sectSize, memory⟩)

/-- `get_cluster`: whether it succeeds, and memory after it. -/
def getCluster (disk : DiskRead) (mydata : Fsdata) (clustnum buffer size : Nat) (memory : Memory) :
    Bool × Memory :=
  let start : Cursor := ⟨mydata.clusterSect clustnum, buffer, size, memory⟩
  let (ok, cursor) := if buffer % archDmaMinalign ≠ 0 then readSectors disk mydata start
    else readWhole disk mydata start
  if !ok then (false, cursor.memory)
  else if cursor.size ≠ 0 then
    let (ret, tmpbuf) := disk cursor.startsect 1
    if ret ≠ 1 then (false, cursor.memory)
    else (true, cursor.memory.store cursor.buffer (tmpbuf.take cursor.size))
  else (true, cursor.memory)

/-! ## Files -/

/-- The fields of `dir_entry` that `get_contents` reads. -/
structure DirEntry where
  starthi : UInt16
  start : UInt16
  size : UInt32
  deriving DecidableEq, Repr

/-- `START` -/
def DirEntry.startClust (dent : DirEntry) (fatsize : FatSize) : Nat :=
  dent.start.toNat + if fatsize ≠ .fat32 then 0 else dent.starthi.toNat * 2 ^ 16

/-- Go to the cluster at `pos`: the cluster and `actsize`, or nothing at an invalid table entry. -/
def skipClusters (disk : DiskRead) (mydata : Fsdata) [mydata.Clustered] (cache : FatCache)
    (curclust pos actsize : Nat) : FatCache × Option (Nat × Nat) :=
  if _more : actsize ≤ pos then
    let (curclust, cache) := getFatent disk mydata cache curclust
    if checkClust curclust mydata.fatsize then (cache, none)
    else skipClusters disk mydata cache curclust pos (actsize + mydata.bytesperclust)
  else (cache, some (curclust, actsize))
termination_by pos + 1 - actsize
decreasing_by
  have positive : 0 < mydata.bytesperclust := mydata.nonempty
  omega

/-- How the search for consecutive clusters ends. -/
inductive RunEnd where
  | remaining
  | getit (endclust actsize : Nat)
  | invalid
  deriving DecidableEq, Repr

/-- Search for consecutive clusters. -/
def findRun (disk : DiskRead) (mydata : Fsdata) [mydata.Clustered] (cache : FatCache)
    (endclust actsize filesize : Nat) : FatCache × RunEnd :=
  if _more : actsize < filesize then
    let (newclust, cache) := getFatent disk mydata cache endclust
    if UInt32.ofNat newclust - 1 ≠ UInt32.ofNat endclust then (cache, .getit endclust actsize)
    else if checkClust newclust mydata.fatsize then (cache, .invalid)
    else findRun disk mydata cache newclust (actsize + mydata.bytesperclust) filesize
  else (cache, .remaining)
termination_by filesize - actsize
decreasing_by
  have positive : 0 < mydata.bytesperclust := mydata.nonempty
  omega

theorem findRun_getit {disk : DiskRead} {mydata : Fsdata} [mydata.Clustered]
    {cache after : FatCache} {endclust actsize filesize last size : Nat}
    (found : findRun disk mydata cache endclust actsize filesize = (after, .getit last size)) :
    actsize ≤ size ∧ size < filesize := by
  fun_induction findRun disk mydata cache endclust actsize filesize with
  | case1 _ _ _ more =>
    cases found
    exact ⟨Nat.le_refl _, more⟩
  | case2 => cases found
  | case3 _ _ _ _ _ _ _ _ _ ih =>
    have bounds := ih found
    omega
  | case4 => cases found

/-- What `get_contents` leaves. -/
structure Contents where
  ret : Int
  gotsize : Int
  cache : FatCache
  memory : Memory

/-- The loop of `get_contents`. Sizes are passed to `get_cluster` as an `int`. -/
def readRuns (disk : DiskRead) (mydata : Fsdata) [mydata.Clustered] (cache : FatCache)
    (curclust filesize buffer : Nat) (gotsize : Int) (memory : Memory) : Contents :=
  match _found : findRun disk mydata cache curclust mydata.bytesperclust filesize with
  | (cache, .invalid) => ⟨0, gotsize, cache, memory⟩
  | (cache, .remaining) =>
    let (ok, memory) := getCluster disk mydata curclust buffer (filesize % 2 ^ 32) memory
    if !ok then ⟨-1, gotsize, cache, memory⟩ else ⟨0, gotsize + filesize, cache, memory⟩
  | (cache, .getit endclust actsize) =>
    let (ok, memory) := getCluster disk mydata curclust buffer (actsize % 2 ^ 32) memory
    if !ok then ⟨-1, gotsize, cache, memory⟩
    else
      let gotsize := gotsize + Int.bmod actsize (2 ^ 32)
      let (curclust, cache) := getFatent disk mydata cache endclust
      if checkClust curclust mydata.fatsize then ⟨0, gotsize, cache, memory⟩
      else readRuns disk mydata cache curclust (filesize - actsize) (buffer + actsize) gotsize memory
termination_by filesize
decreasing_by
  have positive : 0 < mydata.bytesperclust := mydata.nonempty
  have bounds := findRun_getit _found
  omega

/-- `get_contents` from the cluster at `pos` on, with `filesize` and `pos` counted from its start.
The cluster is read into a buffer of its own if `pos` is not at its start. -/
def contentsFrom (disk : DiskRead) (mydata : Fsdata) [mydata.Clustered] (cache : FatCache)
    (curclust filesize pos buffer : Nat) (memory : Memory) : Contents :=
  if pos = 0 then readRuns disk mydata cache curclust filesize buffer 0 memory
  else
    let actsize := min filesize mydata.bytesperclust
    let (ok, block) := getCluster disk mydata curclust 0 (actsize % 2 ^ 32) Memory.blank
    if !ok then ⟨-1, 0, cache, memory⟩
    else
      let filesize := filesize - actsize
      let actsize := actsize - pos
      let memory := memory.store buffer (block.load pos actsize)
      if filesize = 0 then ⟨0, actsize, cache, memory⟩
      else
        let (curclust, cache) := getFatent disk mydata cache curclust
        if checkClust curclust mydata.fatsize then ⟨0, actsize, cache, memory⟩
        else readRuns disk mydata cache curclust filesize (buffer + actsize) actsize memory

def getContents (disk : DiskRead) (mydata : Fsdata) [mydata.Clustered] (cache : FatCache)
    (dent : DirEntry) (pos buffer maxsize : Nat) (memory : Memory) : Contents :=
  let filesize := dent.size.toNat
  if filesize ≤ pos then ⟨0, 0, cache, memory⟩
  else
    let filesize := if 0 < maxsize ∧ pos + maxsize < filesize then pos + maxsize else filesize
    match skipClusters disk mydata cache (dent.startClust mydata.fatsize) pos
      mydata.bytesperclust with
    | (cache, none) => ⟨0, 0, cache, memory⟩
    | (cache, some (curclust, actsize)) =>
      let actsize := actsize - mydata.bytesperclust
      contentsFrom disk mydata cache curclust (filesize - actsize) (pos - actsize) buffer memory

end HrppBoot.Fat
