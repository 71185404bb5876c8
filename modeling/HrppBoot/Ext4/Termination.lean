import HrppBoot.Lib.Advance
import HrppBoot.Lib.Words
import Mathlib.Data.Finite.Prod
import Mathlib.Data.Finite.Sum

/-!
# Where the loops over the disk end

The descent into an extent tree, the walks over directories and the scan of the journal go where
the disk leads them. The descent ends exactly if no index block on the way leads back to itself. A
walk over records ends exactly if it passes none of length zero and does not come back to a record
when its 32-bit position wraps, and the scan exactly if it meets no block of an unknown type with
the expected sequence number and does not come back to a block when its number wraps.
-/

namespace HrppBoot.Ext4.Termination

open Recurrence Relation

abbrev Contents := Nat → UInt8

/-- `le16_to_cpu` -/
def le16 (m : Contents) (a : Nat) : UInt16 := (m a).toUInt16 ||| (m (a + 1)).toUInt16 <<< 8

/-- `le32_to_cpu` -/
def le32 (m : Contents) (a : Nat) : UInt32 := Words.be32 (m (a + 3)) (m (a + 2)) (m (a + 1)) (m a)

/-- `be32_to_cpu` -/
def be32 (m : Contents) (a : Nat) : UInt32 := Words.be32 (m a) (m (a + 1)) (m (a + 2)) (m (a + 3))

/-! ## Extents -/

/-- A block of an extent tree: that of the inode, or one on the disk with the high and the low part
of its number. -/
abbrev ExtentPlace := Option (UInt16 × UInt32)

structure ExtentTree where
  inode : Contents
  /-- What is in memory from the buffer on when a block was read, none if that fails. -/
  read : UInt16 × UInt32 → Option Contents

def ext4ExtMagic : UInt16 := 0xf30a

/-- The inner loop: the first entry from one on that starts behind a block of the file, with a
number of entries left. -/
def indexBehind (m : Contents) (fileblock : UInt32) : (left i : Nat) → Nat
  | 0, i => i
  | left + 1, i =>
    if le32 m (12 + 12 * i) ≤ fileblock then indexBehind m fileblock left (i + 1) else i

def ExtentTree.header (tree : ExtentTree) : ExtentPlace → Contents
  | none => tree.inode
  | some block => (tree.read block).getD tree.inode

def leafOf (m : Contents) (i : Nat) : UInt16 × UInt32 :=
  (le16 m (12 + 12 * i + 8), le32 m (12 + 12 * i + 4))

/-- A turn of `ext4fs_get_extent_block`. The result is none for a null pointer. -/
def extentTurn (tree : ExtentTree) (fileblock : UInt32) (place : ExtentPlace) :
    Option ExtentPlace ⊕ ExtentPlace :=
  let m := tree.header place
  if le16 m 0 ≠ ext4ExtMagic then .inl none
  else if le16 m 6 = 0 then .inl (some place)
  else
    let i := indexBehind m fileblock (le16 m 2).toNat 0
    if i = 0 then .inl none
    else
      match tree.read (leafOf m (i - 1)) with
      | none => .inl none
      | some _ => .inr (some (leafOf m (i - 1)))

/-- `ext4fs_get_extent_block`, from the header in the inode. -/
def getExtentBlock (tree : ExtentTree) (fileblock : UInt32) (turns : Nat) :
    Option (Option ExtentPlace) :=
  loop (extentTurn tree fileblock) turns none

/-! ## The entries of a directory file -/

/-- `struct ext2_dirent` -/
structure Dirent where
  inode : UInt32
  direntlen : UInt16
  namelen : UInt8
  filetype : UInt8

/-- A directory with what is read of it and of the inodes it names, none where that fails. -/
structure Directory where
  /-- `inode.size` -/
  size : UInt32
  dirent : UInt32 → Option Dirent
  name : UInt32 → UInt8 → Option (List UInt8)
  /-- `mode` of an inode. -/
  mode : UInt32 → Option UInt16

/-- What `ext4fs_iterate_dir` finds: the inode and the type. -/
structure Found where
  /-- `ino` of the node. -/
  ino : UInt32
  /-- `*ftype` -/
  type : Nat
  deriving DecidableEq

def filetypeUnknown : Nat := 0

def filetypeReg : Nat := 1

def filetypeDirectory : Nat := 2

def filetypeSymlink : Nat := 7

def direntType (filetype : UInt8) : Nat :=
  if filetype.toNat = filetypeDirectory then filetypeDirectory
  else if filetype.toNat = filetypeSymlink then filetypeSymlink
  else if filetype.toNat = filetypeReg then filetypeReg
  else filetypeUnknown

def inodeType (mode : UInt16) : Nat :=
  if mode &&& 0xf000 = 0x4000 then filetypeDirectory
  else if mode &&& 0xf000 = 0xa000 then filetypeSymlink
  else if mode &&& 0xf000 = 0x8000 then filetypeReg
  else filetypeUnknown

/-- The type of an entry, with whether its inode was read; none if that fails. -/
def entryType (dir : Directory) (d : Dirent) : Option (Nat × Bool) :=
  if d.filetype.toNat ≠ filetypeUnknown then some (direntType d.filetype, false)
  else (dir.mode d.inode).map fun mode => (inodeType mode, true)

/-- What an entry with a name leads to: a result, or none if the walk goes on. Without a name to
search for, all entries are listed. -/
def visitEntry (dir : Directory) (name : Option (List UInt8)) (fpos : UInt32) (d : Dirent) :
    Option (Option Found) :=
  match dir.name (fpos + 8) d.namelen with
  | none => some none
  | some filename =>
    match entryType dir d with
    | none => some none
    | some (type, inodeRead) =>
      match name with
      | some name =>
        if filename.takeWhile (· != 0) = name then some (some ⟨d.inode, type⟩) else none
      | none => if !inodeRead && (dir.mode d.inode).isNone then some none else none

/-- A turn of `ext4fs_iterate_dir`. -/
def iterateTurn (dir : Directory) (name : Option (List UInt8)) (fpos : UInt32) :
    Option Found ⊕ UInt32 :=
  if dir.size ≤ fpos then .inl none
  else
    match dir.dirent fpos with
    | none => .inl none
    | some d =>
      match (if d.namelen = 0 then none else visitEntry dir name fpos d) with
      | some found => .inl found
      | none => .inr (fpos + d.direntlen.toUInt32)

/-- `ext4fs_iterate_dir` for a directory whose inode was read. What it prints is left out. -/
def iterateDir (dir : Directory) (name : Option (List UInt8)) (turns : Nat) :
    Option (Option Found) :=
  loop (iterateTurn dir name) turns 0

/-! ## The entries of a directory block -/

/-- What is in memory from the buffer of a block on. -/
abbrev Block := UInt32 → UInt8

/-- The entry at a distance from the start of the buffer. -/
def direntAt (b : Block) (dir : UInt32) : Dirent where
  inode := Words.be32 (b (dir + 3)) (b (dir + 2)) (b (dir + 1)) (b dir)
  direntlen := (b (dir + 4)).toUInt16 ||| (b (dir + 5)).toUInt16 <<< 8
  namelen := b (dir + 6)
  filetype := b (dir + 7)

/-- `strlen` and `strncmp`: the entry has the name. -/
def hasName (b : Block) (name : List UInt8) (dir : UInt32) : Bool :=
  name.length == (direntAt b dir).namelen.toNat &&
    (List.range name.length).map (fun i => b (dir + 8 + UInt32.ofNat i)) == name

/-- A turn of the loop of `search_dir` and of `check_filename`. As the entries lie in a row, the
bytes in front of one are its distance from the start. -/
def blockTurn (blksz : UInt32) (b : Block) (name : List UInt8) (dir : UInt32) :
    Option UInt32 ⊕ UInt32 :=
  if hasName b name dir then .inl (some (direntAt b dir).inode)
  else if blksz - dir = (direntAt b dir).direntlen.toUInt32 then .inl none
  else .inr (dir + (direntAt b dir).direntlen.toUInt32)

/-- The loop over one block: the inode of the entry with the name. -/
def searchBlock (blksz : UInt32) (b : Block) (name : List UInt8) (turns : Nat) :
    Option (Option UInt32) :=
  loop (blockTurn blksz b name) turns 0

/-- `search_dir`, for the blocks of the directory; a block is none if there is none or if it cannot
be read. -/
def searchDir (blksz : UInt32) (name : List UInt8) (turns : Nat) :
    List (Option Block) → Option Int32
  | [] => some (-1)
  | none :: _ => some (-1)
  | some b :: rest =>
    match searchBlock blksz b name turns with
    | none => none
    | some (some ino) => some ino.toInt32
    | some none => searchDir blksz name turns rest

/-- `check_filename` for a block that is none if it cannot be read or logged; `stored` says that the
changed block can be stored. -/
def checkFilename (blksz : UInt32) (name : List UInt8) (stored : Bool) (turns : Nat) :
    Option Block → Option Int32
  | none => some (-1)
  | some b =>
    (searchBlock blksz b name turns).map fun found =>
      match found with
      | some ino => if stored then ino.toInt32 else -1
      | none => -1

/-! ## The journal -/

abbrev Disk (n : Nat) := Fin n → UInt8

/-- `struct journal_superblock_t`, as far as the scan uses it: the fields `s_…`. -/
structure JournalSuperblock where
  first : UInt32
  sequence : UInt32
  start : UInt32

structure Journal (n : Nat) where
  blksz : Nat
  /-- `EXT3_FEATURE_INCOMPAT_RECOVER` is set. -/
  needsRecovery : Bool
  superblock : Disk n → JournalSuperblock
  /-- What is in the buffer, cleared before, when a block of the journal was read. -/
  block : Disk n → Int32 → Contents
  /-- `recover_transaction`, with the revoked blocks that an earlier scan has found. -/
  recoverTransaction : Disk n → Int32 → Disk n

/-- What the loop of the scan has. The revoked blocks that it finds are not used before the next
one. -/
structure ScanState (n : Nat) where
  i : Int32
  /-- `transaction_state` is `TRANSACTION_RUNNING`. -/
  running : Bool
  dbFound : Bool
  /-- `curr_desc_logical_no` -/
  currDesc : Int32
  /-- `s_sequence` -/
  sequence : UInt32
  disk : Disk n

/-- `EXT3_JOURNAL_DESCRIPTOR_BLOCK` -/
def descriptorBlock : UInt32 := 1

/-- `EXT3_JOURNAL_COMMIT_BLOCK` -/
def commitBlock : UInt32 := 2

/-- `EXT3_JOURNAL_REVOKE_BLOCK` -/
def revokeBlock : UInt32 := 5

/-- The loop over the tags of a descriptor block: the number of the last block of the
transaction. -/
def tagLoop (blksz : Nat) (b : Contents) (ofs : Nat) (i : Int32) : Int32 :=
  if blksz < ofs + 8 then i
  else if be32 b (ofs + 4) &&& 8 ≠ 0 then i + 1
  else tagLoop blksz b (if be32 b (ofs + 4) &&& 2 = 0 then ofs + 24 else ofs + 8) (i + 1)
termination_by blksz - ofs
decreasing_by split <;> omega

/-- A turn of the loop of `ext4fs_check_journal_state`; `recover` says that it is to recover. -/
def scanTurn {n : Nat} (j : Journal n) (recover : Bool) (s : ScanState n) :
    (Int × ScanState n) ⊕ ScanState n :=
  let b := j.block s.disk s.i
  if be32 b 8 ≠ s.sequence then .inl (0, s)
  else if be32 b 4 = descriptorBlock then
    if s.running then .inl (-1, s)
    else .inr { s with
      i := tagLoop j.blksz b 12 s.i + 1, running := true, dbFound := true, currDesc := s.i }
  else if be32 b 4 = commitBlock then
    let advanced := if s.running || !s.dbFound then
      { s with i := s.i + 1, running := false, sequence := s.sequence + 1 } else s
    .inr { advanced with
      disk := if recover && s.dbFound then j.recoverTransaction s.disk s.currDesc else s.disk
      dbFound := false }
  else if be32 b 4 = revokeBlock then .inr { s with i := s.i + 1 }
  else .inr s

def scanStart {n : Nat} (j : Journal n) (disk : Disk n) : ScanState n where
  i := (j.superblock disk).first.toInt32
  running := false
  dbFound := false
  currDesc := 0
  sequence := (j.superblock disk).sequence
  disk := disk

/-- `ext4fs_check_journal_state` up to `end`: what it returns, with the last state of the loop. -/
def checkJournalState {n : Nat} (j : Journal n) (recover : Bool) (disk : Disk n) (turns : Nat) :
    Option (Int × ScanState n) :=
  if j.needsRecovery && (j.superblock disk).start != 0 then
    loop (scanTurn j recover) turns (scanStart j disk)
  else some (0, scanStart j disk)

/-! ## The states -/

instance finite_byte : Finite UInt8 :=
  Finite.of_injective (fun byte : UInt8 => byte.toFin) fun _ _ same => UInt8.toFin_inj.mp same

/-- There are finitely many words of 16 bits. -/
instance finite_half : Finite UInt16 :=
  Finite.of_injective (fun half : UInt16 => half.toFin) fun _ _ same => UInt16.toFin_inj.mp same

/-- There are finitely many words of 32 bits. -/
instance finite_word : Finite UInt32 :=
  Finite.of_injective (fun word : UInt32 => word.toFin) fun _ _ same => UInt32.toFin_inj.mp same

/-- There are finitely many numbers with a sign. -/
instance finite_int : Finite Int32 :=
  Finite.of_injective Int32.toUInt32 fun _ _ same => congrArg UInt32.toInt32 same

instance finite_scanState (n : Nat) : Finite (ScanState n) :=
  Finite.of_injective (fun s : ScanState n =>
    (s.i, s.running, s.dbFound, s.currDesc, s.sequence, s.disk)) fun s t same => by
      cases s
      cases t
      simp only [Prod.mk.injEq] at same
      simp only [ScanState.mk.injEq]
      exact same

/-! ## The descent -/

/-- The block that an index block names for a block of the file; none if it is no index block, or if
its first entry starts behind. -/
def indexOf (m : Contents) (fileblock : UInt32) : Option (UInt16 × UInt32) :=
  if le16 m 0 ≠ ext4ExtMagic ∨ le16 m 6 = 0 then none
  else
    let i := indexBehind m fileblock (le16 m 2).toNat 0
    if i = 0 then none else some (leafOf m (i - 1))

/-- An index block names the next block, and this one can be read. -/
def Leads (tree : ExtentTree) (fileblock : UInt32) (place next : ExtentPlace) : Prop :=
  ∃ block, next = some block ∧ indexOf (tree.header place) fileblock = some block ∧
    (tree.read block).isSome

/-- No index block on the way leads back to itself, directly or over others. -/
def DescentFits (tree : ExtentTree) (fileblock : UInt32) : Prop :=
  ∀ block, ReflTransGen (Leads tree fileblock) none (some block) →
    ¬TransGen (Leads tree fileblock) (some block) (some block)

theorem leads_iff {tree : ExtentTree} {fileblock : UInt32} {place next : ExtentPlace} :
    Turn (onward (extentTurn tree fileblock)) place next ↔ Leads tree fileblock place next := by
  rw [turn_onward]
  simp only [extentTurn, Leads, indexOf]
  by_cases magic : le16 (tree.header place) 0 = ext4ExtMagic
  · by_cases leaf : le16 (tree.header place) 6 = 0
    · simp [magic, leaf]
    · by_cases behind :
          indexBehind (tree.header place) fileblock (le16 (tree.header place) 2).toNat 0 = 0
      · simp [magic, leaf, behind]
      · simp only [magic, leaf, behind, ne_eq, not_true_eq_false, or_self, ↓reduceIte,
          Option.some.injEq]
        cases found : tree.read (leafOf (tree.header place) (indexBehind (tree.header place)
            fileblock (le16 (tree.header place) 2).toNat 0 - 1)) with
        | none => simp [found]
        | some m => simp [found, eq_comm]
  · simp [magic]

/-- The descent ends exactly if no index block leads back to itself. -/
theorem getExtentBlock_settles_iff (tree : ExtentTree) (fileblock : UInt32) :
    Settles (getExtentBlock tree fileblock) ↔ DescentFits tree fileblock := by
  have same : Turn (onward (extentTurn tree fileblock)) = Leads tree fileblock :=
    funext₂ fun _ _ => propext leads_iff
  refine loop_settles_iff.trans ?_
  unfold Circles DescentFits
  rw [same]
  constructor
  · exact fun straight block reached back => straight ⟨some block, reached, back⟩
  · rintro straight ⟨place, reached, back⟩
    obtain ⟨_, -, block, rfl, -⟩ := TransGen.tail'_iff.mp back
    exact straight block reached back

/-! ## Records in a row -/

section Records

/-- The position behind a record that a walk passes; a length is none where the walk ends. -/
def nextRecord (length : UInt32 → Option UInt16) (pos : UInt32) : Option UInt32 :=
  (length pos).map (pos + ·.toUInt32)

def recordLength (length : UInt32 → Option UInt16) (pos : UInt32) : Nat :=
  ((length pos).getD 0).toNat

/-- A row of records from a position to another, with the sum of their lengths. -/
abbrev Row (length : UInt32 → Option UInt16) : UInt32 → UInt32 → Nat → Prop :=
  Way (nextRecord length) (recordLength length)

/-- A walk over records passes none of length zero, and it does not come back to a record when its
position wraps. -/
structure RecordsEnd (length : UInt32 → Option UInt16) : Prop where
  positive : ∀ pos n, Row length 0 pos n → length pos ≠ some 0
  once : ∀ pos n k, Row length 0 pos n → ¬Row length pos pos (2 ^ 32 * (k + 1))

variable {length : UInt32 → Option UInt16}

theorem turn_nextRecord {pos next : UInt32} : Turn (nextRecord length) pos next ↔
    ∃ len, length pos = some len ∧ pos + len.toUInt32 = next :=
  Option.map_eq_some_iff

theorem recordLength_eq {pos : UInt32} {len : UInt16} (known : length pos = some len) :
    recordLength length pos = len.toNat := by
  rw [recordLength, known, Option.getD_some]

/-- A walk over records ends exactly in this case. -/
theorem stops_nextRecord_iff : Stops (nextRecord length) 0 ↔ RecordsEnd length := by
  have moves : Stops (nextRecord length) 0 ↔
      MovesOn (nextRecord length) (recordLength length) (2 ^ 32) 0 := by
    apply stops_iff_movesOn (fun _ => True) UInt32.toNat (Set.toFinite _) (by decide)
      trivial (fun _ _ _ _ => trivial)
    · intro t u _ turn
      obtain ⟨len, known, rfl⟩ := turn_nextRecord.mp turn
      rw [recordLength_eq known, UInt32.toNat_add, UInt16.toNat_toUInt32]
      exact Nat.mod_modEq _ _
    · intro t u _ turn rests
      obtain ⟨len, known, rfl⟩ := turn_nextRecord.mp turn
      rw [recordLength_eq known] at rests
      obtain rfl : len = 0 := UInt16.toNat.inj rests
      exact UInt32.add_zero t
  rw [moves]
  constructor
  · intro on
    refine ⟨fun pos n row zero => ?_, on.once⟩
    exact on.advances pos _ n row (turn_nextRecord.mpr ⟨0, zero, rfl⟩) (recordLength_eq zero)
  · intro ends
    refine ⟨fun t u n row turn rests => ?_, ends.once⟩
    obtain ⟨len, known, -⟩ := turn_nextRecord.mp turn
    rw [recordLength_eq known] at rests
    obtain rfl : len = 0 := UInt16.toNat.inj rests
    exact ends.positive t n row known

/-- Below an end that no record takes over the last 32-bit position, positions do not wrap. -/
theorem Row.sum {limit : Nat} (small : limit + 65535 ≤ 2 ^ 32)
    (below : ∀ pos len, length pos = some len → pos.toNat < limit) {pos next : UInt32} {n : Nat}
    (row : Row length pos next n) : next.toNat = pos.toNat + n := by
  induction row with
  | here => rfl
  | @on pos behind next n turn _ ih =>
    obtain ⟨len, known, rfl⟩ := turn_nextRecord.mp turn
    have inside := below pos len known
    have short := len.toNat_lt
    rw [ih, recordLength_eq known, UInt32.toNat_add, UInt16.toNat_toUInt32,
      Nat.mod_eq_of_lt (by omega), Nat.add_assoc]

/-- There only a record of length zero keeps a walk from ending. -/
theorem recordsEnd_iff_positive {limit : Nat} (small : limit + 65535 ≤ 2 ^ 32)
    (below : ∀ pos len, length pos = some len → pos.toNat < limit) :
    RecordsEnd length ↔ ∀ pos n, Row length 0 pos n → length pos ≠ some 0 := by
  refine ⟨RecordsEnd.positive, fun positive => ⟨positive, fun pos n k _ back => ?_⟩⟩
  have same := Row.sum small below back
  omega

end Records

/-! ## Directories -/

/-- The length of the entry at a position of a directory; none if the walk ends there. -/
def direntLength (dir : Directory) (name : Option (List UInt8)) (fpos : UInt32) : Option UInt16 :=
  if dir.size ≤ fpos then none
  else
    match dir.dirent fpos with
    | none => none
    | some d =>
      if d.namelen ≠ 0 ∧ (visitEntry dir name fpos d).isSome then none else some d.direntlen

/-- The length of the entry at a distance from the start of a block; none if the walk ends there,
with the entry with the name or the one that ends with the block. -/
def blockLength (blksz : UInt32) (b : Block) (name : List UInt8) (dir : UInt32) : Option UInt16 :=
  if hasName b name dir ∨ blksz - dir = (direntAt b dir).direntlen.toUInt32 then none
  else some (direntAt b dir).direntlen

def WalkFits (dir : Directory) (name : Option (List UInt8)) : Prop :=
  RecordsEnd (direntLength dir name)

def BlockFits (blksz : UInt32) (b : Block) (name : List UInt8) : Prop :=
  RecordsEnd (blockLength blksz b name)

/-- The walk over a block comes to an entry with the name. -/
def NameIn (blksz : UInt32) (b : Block) (name : List UInt8) : Prop :=
  ∃ dir n, Row (blockLength blksz b name) 0 dir n ∧ hasName b name dir = true

/-- This for the blocks of a directory, up to one that has the name or is not there. -/
def BlocksFit (blksz : UInt32) (name : List UInt8) : List (Option Block) → Prop
  | [] => True
  | none :: _ => True
  | some b :: rest =>
    BlockFits blksz b name ∧ (¬NameIn blksz b name → BlocksFit blksz name rest)

/-- The walk over a directory ends exactly if its records end. -/
theorem iterateDir_settles_iff (dir : Directory) (name : Option (List UInt8)) :
    Settles (iterateDir dir name) ↔ WalkFits dir name := by
  have same : onward (iterateTurn dir name) = nextRecord (direntLength dir name) := by
    funext fpos
    simp only [onward, iterateTurn, nextRecord, direntLength]
    split
    · rfl
    · cases dir.dirent fpos with
      | none => rfl
      | some d =>
        by_cases unnamed : d.namelen = 0
        · simp [unnamed]
        · cases visited : visitEntry dir name fpos d <;> simp [unnamed, visited]
  rw [WalkFits, ← stops_nextRecord_iff, ← same]
  exact (loop_fuelled _).settles_iff

theorem iterateDir_settles_iff_positive {dir : Directory} (small : dir.size.toNat + 65535 ≤ 2 ^ 32)
    (name : Option (List UInt8)) : Settles (iterateDir dir name) ↔
      ∀ fpos n, Row (direntLength dir name) 0 fpos n → direntLength dir name fpos ≠ some 0 := by
  rw [iterateDir_settles_iff]
  apply recordsEnd_iff_positive small
  intro fpos len known
  unfold direntLength at known
  split at known
  · cases known
  · rename_i inside
    exact UInt32.lt_iff_toNat_lt.mp (UInt32.not_le.mp inside)

section Blocks

variable {blksz : UInt32} {b : Block} {name : List UInt8}

theorem onward_blockTurn :
    onward (blockTurn blksz b name) = nextRecord (blockLength blksz b name) := by
  funext dir
  simp only [onward, blockTurn, nextRecord, blockLength]
  by_cases named : hasName b name dir = true
  · simp [named]
  · by_cases last : blksz - dir = (direntAt b dir).direntlen.toUInt32
    · simp [named, last]
    · simp [named, last]

theorem searchBlock_settles_iff : Settles (searchBlock blksz b name) ↔ BlockFits blksz b name := by
  rw [BlockFits, ← stops_nextRecord_iff, ← onward_blockTurn]
  exact (loop_fuelled _).settles_iff

theorem nameIn_iff {turns : Nat} {found : Option UInt32}
    (ran : searchBlock blksz b name turns = some found) :
    NameIn blksz b name ↔ found.isSome = true := by
  constructor
  · rintro ⟨dir, n, row, named⟩
    have reached := row.reached
    rw [← onward_blockTurn] at reached
    have last : blockTurn blksz b name dir = .inl (some (direntAt b dir).inode) := by
      rw [blockTurn, if_pos named]
    obtain ⟨N, later⟩ := loop_of_last reached last
    have more := (loop_fuelled (blockTurn blksz b name)).mono (Nat.le_max_left turns N) ran
    have same := more.symm.trans (later _ (Nat.le_max_right turns N))
    rw [Option.some.inj same]
    rfl
  · intro isSome
    obtain ⟨dir, reached, last⟩ := exists_last_of_loop ran
    rw [onward_blockTurn] at reached
    obtain ⟨n, row⟩ := exists_way _ reached
    refine ⟨dir, n, row, ?_⟩
    by_contra missing
    rw [blockTurn, if_neg missing] at last
    split at last
    · rw [← Sum.inl.inj last] at isSome
      cases isSome
    · cases last

/-- The search through the blocks of a directory. -/
theorem searchDir_settles_iff (blocks : List (Option Block)) :
    Settles (fun turns => searchDir blksz name turns blocks) ↔ BlocksFit blksz name blocks := by
  induction blocks with
  | nil => exact iff_of_true ⟨0, -1, fun _ _ => rfl⟩ trivial
  | cons first rest ih =>
    cases first with
    | none => exact iff_of_true ⟨0, -1, fun _ _ => rfl⟩ trivial
    | some b =>
      rw [BlocksFit, ← searchBlock_settles_iff, ← ih]
      constructor
      · rintro ⟨N, result, ran⟩
        have here : searchDir blksz name N (some b :: rest) = some result := ran N le_rfl
        rw [searchDir] at here
        cases one : searchBlock blksz b name N with
        | none =>
          rw [one] at here
          cases here
        | some found =>
          have later (turns : Nat) (more : turns ≥ N) :
              searchBlock blksz b name turns = some found :=
            (loop_fuelled (blockTurn blksz b name)).mono more one
          refine ⟨⟨N, found, later⟩, fun missing => ⟨N, result, fun turns more => ?_⟩⟩
          have there : searchDir blksz name turns (some b :: rest) = some result := ran turns more
          rw [nameIn_iff one] at missing
          rw [Option.not_isSome_iff_eq_none.mp missing] at later
          rw [searchDir, later turns more] at there
          exact there
      · rintro ⟨⟨N, found, ran⟩, others⟩
        cases found with
        | some ino =>
          refine ⟨N, ino.toInt32, fun turns more => ?_⟩
          dsimp only
          rw [searchDir, ran turns more]
        | none =>
          have missing : ¬NameIn blksz b name := by
            rw [nameIn_iff (ran N le_rfl)]
            exact Bool.false_ne_true
          obtain ⟨M, result, behind⟩ := others missing
          refine ⟨max N M, result, fun turns more => ?_⟩
          dsimp only
          rw [searchDir, ran turns (le_trans (le_max_left N M) more)]
          exact behind turns (le_trans (le_max_right N M) more)

theorem checkFilename_settles_iff (stored : Bool) :
    Settles (fun turns => checkFilename blksz name stored turns (some b)) ↔
      BlockFits blksz b name := by
  rw [← searchBlock_settles_iff]
  constructor
  · rintro ⟨N, result, ran⟩
    obtain ⟨found, one, -⟩ := Option.map_eq_some_iff.mp (ran N le_rfl)
    exact ⟨N, found, fun turns more => (loop_fuelled (blockTurn blksz b name)).mono more one⟩
  · rintro ⟨N, found, ran⟩
    cases found with
    | none =>
      refine ⟨N, -1, fun turns more => ?_⟩
      dsimp only
      rw [checkFilename, ran turns more]
      rfl
    | some ino =>
      refine ⟨N, if stored then ino.toInt32 else -1, fun turns more => ?_⟩
      dsimp only
      rw [checkFilename, ran turns more]
      rfl

end Blocks

/-! ## The scan of the journal -/

/-- How many tags of a descriptor block the loop counts. -/
def tagCount (blksz : Nat) (b : Contents) (ofs : Nat) : Nat :=
  if blksz < ofs + 8 then 0
  else if be32 b (ofs + 4) &&& 8 ≠ 0 then 1
  else tagCount blksz b (if be32 b (ofs + 4) &&& 2 = 0 then ofs + 24 else ofs + 8) + 1
termination_by blksz - ofs
decreasing_by split <;> omega

def KnownType (type : UInt32) : Prop :=
  type = descriptorBlock ∨ type = commitBlock ∨ type = revokeBlock

section Scan

variable {n : Nat} (j : Journal n) (recover : Bool)

/-- How many blocks the scan goes on at a block. -/
def blockAdvance (s : ScanState n) : Nat :=
  if be32 (j.block s.disk s.i) 4 = descriptorBlock then
    tagCount j.blksz (j.block s.disk s.i) 12 + 1
  else if be32 (j.block s.disk s.i) 4 = commitBlock then 1
  else if be32 (j.block s.disk s.i) 4 = revokeBlock then 1
  else 0

/-- The blocks that the scan reads from a state to another, and how many it goes on in all. -/
abbrev BlockRow : ScanState n → ScanState n → Nat → Prop :=
  Way (onward (scanTurn j recover)) (blockAdvance j)

/-- The scan meets no block of an unknown type with the expected sequence number, and when the
number of the block wraps it does not come back to the same sequence number, transaction and
disk. -/
structure ScanEnds (start : ScanState n) : Prop where
  known : ∀ s m, BlockRow j recover start s m → be32 (j.block s.disk s.i) 8 = s.sequence →
    KnownType (be32 (j.block s.disk s.i) 4)
  once : ∀ s m k, BlockRow j recover start s m → ¬BlockRow j recover s s (2 ^ 32 * (k + 1))

/-- This for a scan that is needed. -/
def ScanFits (disk : Disk n) : Prop :=
  j.needsRecovery = true → (j.superblock disk).start ≠ 0 → ScanEnds j recover (scanStart j disk)

/-- A number of blocks that an `int` counts. -/
def blockNumber (i : Int32) : Nat := i.toUInt32.toNat

theorem blockNumber_succ (i : Int32) : blockNumber (i + 1) ≡ blockNumber i + 1 [MOD 2 ^ 32] := by
  rw [blockNumber, Int32.toUInt32_add, UInt32.toNat_add]
  exact Nat.mod_modEq _ _

theorem blockNumber_tagLoop (blksz : Nat) (b : Contents) (ofs : Nat) (i : Int32) :
    blockNumber (tagLoop blksz b ofs i) ≡ blockNumber i + tagCount blksz b ofs [MOD 2 ^ 32] := by
  induction ofs, i using tagLoop.induct blksz b with
  | case1 ofs i ends =>
    rw [tagLoop, tagCount, if_pos ends, if_pos ends]
    exact Nat.ModEq.refl _
  | case2 ofs i inside last =>
    rw [tagLoop, if_neg inside, if_pos last, tagCount, if_neg inside, if_pos last]
    exact blockNumber_succ i
  | case3 ofs i inside more ih =>
    rw [tagLoop, if_neg inside, if_neg more, tagCount, if_neg inside, if_neg more, ← Nat.add_assoc,
      Nat.add_right_comm]
    exact ih.trans ((blockNumber_succ i).add_right _)

variable {j recover} {s t : ScanState n}

/-- What a turn of the scan does, from a state in which a descriptor was found exactly if a
transaction is running. -/
theorem scanTurn_moves (inStep : s.running = s.dbFound)
    (turn : Turn (onward (scanTurn j recover)) s t) :
    t.running = t.dbFound ∧ blockNumber t.i ≡ blockNumber s.i + blockAdvance j s [MOD 2 ^ 32] ∧
      (blockAdvance j s = 0 → t = s) := by
  have step := turn_onward.mp turn
  simp only [scanTurn] at step
  simp only [blockAdvance]
  split at step
  · cases step
  split at step
  · rename_i descriptor
    split at step
    · cases step
    · obtain rfl := Sum.inr.inj step
      rw [if_pos descriptor, ← Nat.add_assoc]
      exact ⟨rfl, (blockNumber_succ _).trans ((blockNumber_tagLoop _ _ _ _).add_right 1),
        fun none => absurd none (Nat.succ_ne_zero _)⟩
  rename_i notDescriptor
  split at step
  · rename_i commit
    have moves : (s.running || !s.dbFound) = true := by rw [inStep, Bool.or_not_self]
    obtain rfl := Sum.inr.inj step
    rw [if_neg notDescriptor, if_pos commit, if_pos moves]
    exact ⟨rfl, blockNumber_succ _, fun none => absurd none Nat.one_ne_zero⟩
  rename_i notCommit
  split at step
  · rename_i revoke
    obtain rfl := Sum.inr.inj step
    rw [if_neg notDescriptor, if_neg notCommit, if_pos revoke]
    exact ⟨inStep, blockNumber_succ _, fun none => absurd none Nat.one_ne_zero⟩
  · rename_i notRevoke
    obtain rfl := Sum.inr.inj step
    rw [if_neg notDescriptor, if_neg notCommit, if_neg notRevoke]
    exact ⟨inStep, Nat.ModEq.refl _, fun _ => rfl⟩

theorem blockAdvance_ne_zero_iff :
    blockAdvance j s ≠ 0 ↔ KnownType (be32 (j.block s.disk s.i) 4) := by
  unfold blockAdvance KnownType
  split_ifs <;> simp [*]

/-- A scan that starts without a transaction ends exactly in this case. -/
theorem stops_scan_iff (inStep : s.running = s.dbFound) :
    Stops (onward (scanTurn j recover)) s ↔ ScanEnds j recover s := by
  have moves : Stops (onward (scanTurn j recover)) s ↔
      MovesOn (onward (scanTurn j recover)) (blockAdvance j) (2 ^ 32) s :=
    stops_iff_movesOn (fun t => t.running = t.dbFound) (fun t => blockNumber t.i)
      (Set.toFinite _) (by decide) inStep
      (fun t u before turn => (scanTurn_moves before turn).1)
      (fun t u before turn => (scanTurn_moves before turn).2.1)
      (fun t u before turn => (scanTurn_moves before turn).2.2)
  rw [moves]
  constructor
  · intro on
    refine ⟨fun t m row sequence => ?_, on.once⟩
    by_contra unknown
    have rests : blockAdvance j t = 0 := by
      by_contra advances
      exact unknown (blockAdvance_ne_zero_iff.mp advances)
    unfold KnownType at unknown
    push Not at unknown
    refine on.advances t t m row (turn_onward.mpr ?_) rests
    simp only [scanTurn, sequence, unknown.1, unknown.2.1, unknown.2.2, ne_eq, not_true_eq_false,
      ↓reduceIte]
  · intro ends
    refine ⟨fun t u m row turn => blockAdvance_ne_zero_iff.mpr (ends.known t m row ?_), ends.once⟩
    by_contra other
    have step := turn_onward.mp turn
    rw [scanTurn, if_pos other] at step
    cases step

theorem checkJournalState_settles_iff (j : Journal n) (recover : Bool) (disk : Disk n) :
    Settles (checkJournalState j recover disk) ↔ ScanFits j recover disk := by
  by_cases needed : (j.needsRecovery && (j.superblock disk).start != 0) = true
  · have both := Bool.and_eq_true_iff.mp needed
    have runs : checkJournalState j recover disk =
        fun turns => loop (scanTurn j recover) turns (scanStart j disk) :=
      funext fun turns => if_pos needed
    rw [runs, ScanFits, forall_prop_of_true both.1, forall_prop_of_true (bne_iff_ne.mp both.2),
      ← stops_scan_iff rfl]
    exact (loop_fuelled _).settles_iff
  · refine iff_of_true ⟨0, (0, scanStart j disk), fun turns _ => if_neg needed⟩ fun set start => ?_
    exact absurd (Bool.and_eq_true_iff.mpr ⟨set, bne_iff_ne.mpr start⟩) needed

end Scan

/-- All the loops, for every content of the disk: the descent ends exactly if no index block leads
back to itself, the walks exactly if no record they pass has length zero (and they do not come back
by a wrap, which takes a directory of nearly 4 GiB or a walk behind the block), and the scan exactly
if it meets no block of an unknown type and does not come back by a wrap. -/
theorem ext4_loops_end_iff {n : Nat} (tree : ExtentTree) (fileblock : UInt32) (dir : Directory)
    (wanted : Option (List UInt8)) (blksz : UInt32) (name : List UInt8)
    (blocks : List (Option Block)) (b : Block) (stored : Bool) (j : Journal n) (recover : Bool)
    (disk : Disk n) :
    (Settles (getExtentBlock tree fileblock) ↔ DescentFits tree fileblock) ∧
      (Settles (iterateDir dir wanted) ↔ WalkFits dir wanted) ∧
      (dir.size.toNat + 65535 ≤ 2 ^ 32 → (Settles (iterateDir dir wanted) ↔ ∀ fpos n,
        Row (direntLength dir wanted) 0 fpos n → direntLength dir wanted fpos ≠ some 0)) ∧
      (Settles (fun turns => searchDir blksz name turns blocks) ↔ BlocksFit blksz name blocks) ∧
      (Settles (fun turns => checkFilename blksz name stored turns (some b)) ↔
        BlockFits blksz b name) ∧
      (Settles (checkJournalState j recover disk) ↔ ScanFits j recover disk) :=
  ⟨getExtentBlock_settles_iff tree fileblock, iterateDir_settles_iff dir wanted,
    fun small => iterateDir_settles_iff_positive small wanted, searchDir_settles_iff blocks,
    checkFilename_settles_iff stored, checkJournalState_settles_iff j recover disk⟩

/-! ## Loops that do not end -/

/-- An index block with one entry, which leads to block 5. -/
def indexBlock : Contents := fun a => [0x0a, 0xf3, 1, 0, 4, 0, 1, 0, 0, 0, 0, 0,
  0, 0, 0, 0, 5, 0, 0, 0, 0, 0, 0, 0].getD a 0

/-- The index block is in the inode and in block 5. -/
def selfIndexed : ExtentTree where
  inode := indexBlock
  read block := if block = (0, 5) then some indexBlock else none

def blankDirectory : Directory where
  size := 1024
  dirent _ := some ⟨0, 0, 0, 0⟩
  name _ _ := some []
  mode _ := none

/-- A journal that is to be recovered and has only zeros; the first sequence number is zero. -/
def blankJournal : Journal 1 where
  blksz := 1024
  needsRecovery := true
  superblock _ := ⟨1, 0, 1⟩
  block _ _ _ := 0
  recoverTransaction disk _ := disk

def blankBlock : Block := fun _ => 0

/-- The descent, the walks and the scan do not end on these. -/
theorem blank_loops_endless :
    ¬Settles (getExtentBlock selfIndexed 0) ∧ ¬Settles (iterateDir blankDirectory none) ∧
      ¬Settles (fun turns => searchDir 1024 [97] turns [some blankBlock]) ∧
      ¬Settles (fun turns => checkFilename 1024 [97] true turns (some blankBlock)) ∧
      ¬Settles (checkJournalState blankJournal false fun _ => 0) := by
  have block (fits : BlockFits 1024 blankBlock [97]) : False := fits.positive 0 0 (.here 0) rfl
  refine ⟨?_, ?_, ?_, ?_, ?_⟩
  · intro ends
    have first : Leads selfIndexed 0 none (some (0, 5)) := ⟨(0, 5), rfl, by decide, rfl⟩
    have again : Leads selfIndexed 0 (some (0, 5)) (some (0, 5)) := ⟨(0, 5), rfl, by decide, rfl⟩
    exact (getExtentBlock_settles_iff _ _).mp ends (0, 5) (.single first) (.single again)
  · exact fun ends => ((iterateDir_settles_iff _ _).mp ends).positive 0 0 (.here 0) rfl
  · exact fun ends => block ((searchDir_settles_iff _).mp ends).1
  · exact fun ends => block ((checkFilename_settles_iff true).mp ends)
  · intro ends
    have fits := (checkJournalState_settles_iff _ _ _).mp ends rfl (by decide)
    have known := fits.known _ 0 (.here _) rfl
    rcases known with type | type | type <;> exact absurd type (by decide)

end HrppBoot.Ext4.Termination
