import HrppBoot.Lib.Memory
import HrppBoot.Lib.LittleEndian

/-!
# GUID partition table

Writing and reading the partition table of a block device: `gpt_restore` with what it calls, and
`get_partition_info_efi` with what it calls. The disk is a memory of bytes; headers and entries
are the packed structures of `part_efi.h`, little-endian. `lbaint_t` has 32 bits.
-/

namespace HrppBoot.Disk

open ByteMemory LittleEndian

/-- A value as `lbaint_t`. -/
def lbaint (x : Nat) : Nat := x % 2 ^ 32

/-- A block device, with the memory that lies behind the buffers for one block. -/
structure BlockDev where
  blksz : Nat
  lba : Nat
  behind : Memory
  wide : 512 ≤ blksz
  /-- The number of blocks is an `lbaint_t`. -/
  narrow : lba < 2 ^ 32

/-- `block_write`: all blocks, or none when the range leaves the device. -/
def blockWrite (dev : BlockDev) (disk : Memory) (start count : Nat) (buffer : List UInt8) :
    Option Memory :=
  if start + count ≤ dev.lba then
    some (disk.store (start * dev.blksz) (buffer.take (count * dev.blksz)))
  else none

def blockRead (dev : BlockDev) (disk : Memory) (start count : Nat) : Option (List UInt8) :=
  if start + count ≤ dev.lba then some (disk.load (start * dev.blksz) (count * dev.blksz))
  else none

def blockCnt (size : Nat) (dev : BlockDev) : Nat := (size - 1) / dev.blksz + 1

/-! ## Checksum and identifiers -/

/-- One entry of `crc_table`. -/
def crcTable (n : UInt32) : UInt32 :=
  (List.range 8).foldl
    (fun c _ => if c &&& 1 = 1 then (0xedb88320 : UInt32) ^^^ (c >>> 1) else c >>> 1) n

/-- `crc32` from zero. -/
def crc32 (bytes : List UInt8) : UInt32 :=
  bytes.foldl (fun crc x => crcTable ((crc ^^^ x.toUInt32) &&& 255) ^^^ (crc >>> 8)) 0xffffffff ^^^
    0xffffffff

/-- The sixteen bytes of an identifier. -/
@[ext]
structure Guid where
  bytes : List UInt8
  sized : bytes.length = 16
  deriving DecidableEq

def partitionBasicDataGuid : Guid where
  bytes := [0xa2, 0xa0, 0xd0, 0xeb, 0xe5, 0xb9, 0x33, 0x44, 0x87, 0xc0, 0x68, 0xb6, 0xb7, 0x26,
    0x99, 0xc7]
  sized := rfl

def partitionSystemGuid : Guid where
  bytes := [0x28, 0x73, 0x2a, 0xc1, 0x1f, 0xf8, 0xd2, 0x11, 0xba, 0x4b, 0x00, 0xa0, 0xc9, 0x3e,
    0xc9, 0x3b]
  sized := rfl

/-- The value of a hexadecimal digit. -/
def hexDigit (c : UInt8) : Option UInt8 :=
  if 48 ≤ c ∧ c ≤ 57 then some (c - 48)
  else if 65 ≤ c ∧ c ≤ 70 then some (c - 55)
  else if 97 ≤ c ∧ c ≤ 102 then some (c - 87)
  else none

/-- `uuid_str_valid`: 36 characters, with dashes in four places and digits elsewhere. -/
def uuidStrValid (uuid : List UInt8) : Bool :=
  uuid.length = 36 && (List.range 36).all fun i =>
    if i = 8 ∨ i = 13 ∨ i = 18 ∨ i = 23 then uuid.getD i 0 = 45
    else (hexDigit (uuid.getD i 0)).isSome

/-- The byte two digits stand for. -/
def hexByte (uuid : List UInt8) (i : Nat) : UInt8 :=
  16 * (hexDigit (uuid.getD i 0)).getD 0 + (hexDigit (uuid.getD (i + 1) 0)).getD 0

/-- `UUID_STR_FORMAT_STD` and `UUID_STR_FORMAT_GUID`. -/
inductive UuidFormat where
  | std
  | guid
  deriving DecidableEq

/-- The places of the digits of the sixteen bytes. -/
def UuidFormat.places : UuidFormat → List Nat
  | std => [0, 2, 4, 6, 9, 11, 14, 16, 19, 21, 24, 26, 28, 30, 32, 34]
  | guid => [6, 4, 2, 0, 11, 9, 16, 14, 19, 21, 24, 26, 28, 30, 32, 34]

def uuidStrToBin (uuid : List UInt8) (format : UuidFormat) : Option Guid :=
  if uuidStrValid uuid then
    some ⟨format.places.map (hexByte uuid), by cases format <;> rfl⟩
  else none

/-! ## The structures on the disk -/

@[ext]
structure GptHeader where
  signature : Nat
  revision : Nat
  headerSize : Nat
  headerCrc32 : Nat
  reserved1 : Nat
  myLba : Nat
  alternateLba : Nat
  firstUsableLba : Nat
  lastUsableLba : Nat
  diskGuid : Guid
  partitionEntryLba : Nat
  numPartitionEntries : Nat
  sizeofPartitionEntry : Nat
  partitionEntryArrayCrc32 : Nat

/-- `sizeof(gpt_header)`. -/
def gptHeaderBytes : Nat := 92

/-- The bytes of a header. -/
def GptHeader.encode (h : GptHeader) : List UInt8 :=
  leBytes 8 h.signature ++ (leBytes 4 h.revision ++ (leBytes 4 h.headerSize ++
  (leBytes 4 h.headerCrc32 ++ (leBytes 4 h.reserved1 ++ (leBytes 8 h.myLba ++
  (leBytes 8 h.alternateLba ++ (leBytes 8 h.firstUsableLba ++ (leBytes 8 h.lastUsableLba ++
  (h.diskGuid.bytes ++ (leBytes 8 h.partitionEntryLba ++ (leBytes 4 h.numPartitionEntries ++
  (leBytes 4 h.sizeofPartitionEntry ++ leBytes 4 h.partitionEntryArrayCrc32))))))))))))

/-- The sixteen bytes at an offset, with zeros behind the end of the buffer. -/
def guidAt (buffer : List UInt8) (offset : Nat) : Guid where
  bytes := (bytesAt buffer offset 16).takeD 16 0
  sized := List.takeD_length _ _ _

/-- The header in a buffer. -/
def GptHeader.decode (buffer : List UInt8) : GptHeader where
  signature := field buffer 0 8
  revision := field buffer 8 4
  headerSize := field buffer 12 4
  headerCrc32 := field buffer 16 4
  reserved1 := field buffer 20 4
  myLba := field buffer 24 8
  alternateLba := field buffer 32 8
  firstUsableLba := field buffer 40 8
  lastUsableLba := field buffer 48 8
  diskGuid := guidAt buffer 56
  partitionEntryLba := field buffer 72 8
  numPartitionEntries := field buffer 80 4
  sizeofPartitionEntry := field buffer 84 4
  partitionEntryArrayCrc32 := field buffer 88 4

def partnameSz : Nat := 36

@[ext]
structure GptEntry where
  partitionTypeGuid : Guid
  uniquePartitionGuid : Guid
  startingLba : Nat
  /-- `ending_lba`, the last block of the partition. -/
  endingLba : Nat
  /-- `attributes`, all bits. -/
  attributes : Nat
  partitionName : List Nat
  named : partitionName.length = partnameSz

/-- `sizeof(gpt_entry)`. -/
def gptEntryBytes : Nat := 128

/-- The bytes of an entry. -/
def GptEntry.encode (e : GptEntry) : List UInt8 :=
  e.partitionTypeGuid.bytes ++ (e.uniquePartitionGuid.bytes ++ (leBytes 8 e.startingLba ++
  (leBytes 8 e.endingLba ++ (leBytes 8 e.attributes ++ e.partitionName.flatMap (leBytes 2)))))

/-- The entry in a buffer. -/
def GptEntry.decode (buffer : List UInt8) : GptEntry where
  partitionTypeGuid := guidAt buffer 0
  uniquePartitionGuid := guidAt buffer 16
  startingLba := field buffer 32 8
  endingLba := field buffer 40 8
  attributes := field buffer 48 8
  partitionName := (List.range partnameSz).map fun k => field buffer (56 + 2 * k) 2
  named := by simp

/-- An entry that was never filled in. -/
def GptEntry.unused : GptEntry where
  partitionTypeGuid := ⟨List.replicate 16 0, rfl⟩
  uniquePartitionGuid := ⟨List.replicate 16 0, rfl⟩
  startingLba := 0
  endingLba := 0
  attributes := 0
  partitionName := List.replicate partnameSz 0
  named := by simp

/-! ## Writing -/

def gptHeaderSignature : Nat := 0x5452415020494645

def gptEntryNumbers : Nat := 128

/-- `disk_partition_t`, as far as `gpt_restore` reads it. -/
structure DiskPartition where
  /-- `start`, zero for a partition that follows the one before it. -/
  start : Nat
  size : Nat
  /-- `name`, the whole array. -/
  name : List UInt8
  /-- `uuid`, up to its zero byte. -/
  uuid : List UInt8
  named : name.length = 32
  /-- `start` is an `lbaint_t`. -/
  startFits : start < 2 ^ 32
  /-- `size` is an `lbaint_t`. -/
  sizeFits : size < 2 ^ 32

/-- The header `gpt_fill_header` makes, without checksums. -/
def freshHeader (dev : BlockDev) (guid : Guid) : GptHeader where
  signature := gptHeaderSignature
  revision := 0x00010000
  headerSize := gptHeaderBytes
  headerCrc32 := 0
  reserved1 := 0
  myLba := 1
  alternateLba := lbaint (dev.lba + 2 ^ 32 - 1)
  firstUsableLba := 34
  lastUsableLba := lbaint (dev.lba + 2 ^ 32 - 34)
  diskGuid := guid
  partitionEntryLba := 2
  numPartitionEntries := gptEntryNumbers
  sizeofPartitionEntry := gptEntryBytes
  partitionEntryArrayCrc32 := 0

/-- `gpt_fill_header`; `none` where the identifier is no valid one. -/
def gptFillHeader (dev : BlockDev) (strGuid : List UInt8) : Option GptHeader :=
  (uuidStrToBin strGuid .guid).map (freshHeader dev)

/-- The entry `gpt_fill_pte` makes of a partition. -/
def fillEntry (p : DiskPartition) (guid : Guid) (start ending : Nat) : GptEntry where
  partitionTypeGuid := partitionBasicDataGuid
  uniquePartitionGuid := guid
  startingLba := start
  endingLba := ending
  attributes := 0
  partitionName := p.name.map UInt8.toNat ++ [0, 0, 0, 0]
  named := by simp [p.named, partnameSz]

/-- The loop of `gpt_fill_pte`, with the running offset; `none` where it returns -1. -/
def fillPteLoop (lastUsable : Nat) : Nat → List DiskPartition → Option (List GptEntry)
  | _, [] => some []
  | offset, p :: rest =>
    if p.start ≠ 0 ∧ p.start < offset then none
    else
      let start := if p.start ≠ 0 then p.start else offset
      let next := lbaint (start + p.size)
      if next ≥ lbaint lastUsable then none
      else
        -- A last partition of size zero is extended to the last usable block.
        let ending := if rest = [] ∧ p.size = 0 then lastUsable else lbaint (next + 2 ^ 32 - 1)
        match uuidStrToBin p.uuid .std with
        | none => none
        | some guid =>
          match fillPteLoop lastUsable next rest with
          | none => none
          | some entries => some (fillEntry p guid start ending :: entries)

def gptFillPte (h : GptHeader) (partitions : List DiskPartition) : Option (List GptEntry) :=
  fillPteLoop h.lastUsableLba (lbaint h.firstUsableLba) partitions

/-- The array of entries in memory: those filled in, unused ones up to the number of entries, and
zeros up to whole blocks. -/
def entryArray (dev : BlockDev) (entries : List GptEntry) : List UInt8 :=
  let array := entries ++ List.replicate (gptEntryNumbers - entries.length) GptEntry.unused
  let size := gptEntryNumbers * gptEntryBytes
  array.flatMap GptEntry.encode ++ List.replicate (blockCnt size dev * dev.blksz - size) 0

/-- The block a header is written from. -/
def headerBlock (dev : BlockDev) (h : GptHeader) : List UInt8 :=
  h.encode ++ List.replicate (dev.blksz - gptHeaderBytes) 0

/-- The legacy boot record that protects the table. -/
def legacyMbr (dev : BlockDev) : List UInt8 :=
  List.replicate 446 0 ++ ([0, 0, 0, 0, 0xee, 0, 0, 0] ++ (leBytes 4 1 ++
    (leBytes 4 (lbaint (dev.lba + 2 ^ 32 - 1)) ++ (List.replicate 48 0 ++ [0x55, 0xaa]))))

def setProtectiveMbr (dev : BlockDev) (disk : Memory) : Option Memory :=
  blockWrite dev disk 0 1 (legacyMbr dev ++ dev.behind.load 0 (dev.blksz - 512))

def prepareBackupGptHeader (h : GptHeader) : GptHeader :=
  let backup := { h with
    myLba := h.alternateLba
    alternateLba := h.myLba
    partitionEntryLba := h.lastUsableLba + 1
    headerCrc32 := 0 }
  { backup with headerCrc32 := (crc32 (backup.encode.take backup.headerSize)).toNat }

/-- The header with the checksums of the entries and of itself. -/
def sealHeader (h : GptHeader) (pte : List UInt8) : GptHeader :=
  let summed := { h with
    partitionEntryArrayCrc32 :=
      (crc32 (pte.take (h.numPartitionEntries * h.sizeofPartitionEntry))).toNat }
  { summed with headerCrc32 := (crc32 (summed.encode.take summed.headerSize)).toNat }

/-- `write_gpt_table`; `none` where it returns -1. -/
def writeGptTable (dev : BlockDev) (disk : Memory) (h : GptHeader) (pte : List UInt8) :
    Option Memory := do
  let pteBlkCnt := blockCnt (h.numPartitionEntries * gptEntryBytes) dev
  let disk ← setProtectiveMbr dev disk
  let primary := sealHeader h pte
  let disk ← blockWrite dev disk 1 1 (headerBlock dev primary)
  let disk ← blockWrite dev disk 2 pteBlkCnt pte
  let backup := prepareBackupGptHeader primary
  let disk ← blockWrite dev disk (lbaint (lbaint backup.lastUsableLba + 1)) pteBlkCnt pte
  blockWrite dev disk (lbaint backup.myLba) 1 (headerBlock dev backup)

/-- `gpt_restore`: the disk afterwards, or `none` where it fails. -/
def gptRestore (dev : BlockDev) (disk : Memory) (strDiskGuid : List UInt8)
    (partitions : List DiskPartition) : Option Memory := do
  let h ← gptFillHeader dev strDiskGuid
  let entries ← gptFillPte h partitions
  writeGptTable dev disk h (entryArray dev entries)

/-! ## Reading -/

/-- The buffer with the checksum of the header set to zero. -/
def zeroCrc (buffer : List UInt8) : List UInt8 :=
  buffer.take 16 ++ ([0, 0, 0, 0] ++ buffer.drop 20)

/-- `validate_gpt_header` on the block in `buffer`. The checksum is over as many bytes as the
header says it has, also behind the buffer. -/
def validateGptHeader (dev : BlockDev) (buffer : List UInt8) (lba lastlba : Nat) : Bool :=
  let h := GptHeader.decode buffer
  let bytes := zeroCrc buffer ++ dev.behind.load 0 (h.headerSize - buffer.length)
  h.signature = gptHeaderSignature && (crc32 (bytes.take h.headerSize)).toNat = h.headerCrc32 &&
    h.myLba = lba && h.firstUsableLba ≤ lastlba && h.lastUsableLba ≤ lastlba

/-- The number of bytes of the entries, as the unsigned product of the source. -/
def GptHeader.entryBytes (h : GptHeader) : Nat :=
  (h.numPartitionEntries * h.sizeofPartitionEntry) % 2 ^ 32

def validateGptEntries (h : GptHeader) (pte : List UInt8) : Bool :=
  (crc32 (pte.take h.entryBytes)).toNat = h.partitionEntryArrayCrc32

def allocReadGptEntries (dev : BlockDev) (disk : Memory) (h : GptHeader) : Option (List UInt8) :=
  if h.entryBytes = 0 then none
  else blockRead dev disk (lbaint h.partitionEntryLba) (blockCnt h.entryBytes dev)

/-- `is_gpt_valid`: the header and the entries when both are valid. -/
def isGptValid (dev : BlockDev) (disk : Memory) (lba : Nat) :
    Option (GptHeader × List UInt8) := do
  let buffer ← blockRead dev disk (lbaint lba) 1
  if validateGptHeader dev buffer (lbaint lba) dev.lba then
    let h := GptHeader.decode buffer
    let pte ← allocReadGptEntries dev disk h
    if validateGptEntries h pte then some (h, pte) else none
  else none

/-- `is_pte_valid`: the type is not all zeros. -/
def isPteValid (e : GptEntry) : Bool := e.partitionTypeGuid.bytes ≠ List.replicate 16 0

def isBootable (e : GptEntry) : Bool :=
  e.attributes / 4 % 2 = 1 || e.partitionTypeGuid = partitionSystemGuid

def isprint (c : UInt8) : Bool := (32 ≤ c && c ≤ 126) || 160 ≤ c

/-- A character of a name as it is shown. -/
def shown (c : UInt8) : UInt8 := if c ≠ 0 ∧ ¬isprint c then 46 else c

/-- `print_efiname`, the whole array without the zero behind it. -/
def printEfiname (e : GptEntry) : List UInt8 :=
  e.partitionName.map fun c => shown (UInt8.ofNat c)

/-- A text up to its zero byte. -/
def cString (bytes : List UInt8) : List UInt8 := bytes.takeWhile (· ≠ 0)

/-- What `get_partition_info_efi` fills in. -/
structure PartitionInfo where
  start : Nat
  size : Nat
  blksz : Nat
  /-- `name`, up to its zero byte. -/
  name : List UInt8
  bootable : Bool
  /-- `unique_partition_guid`, the bytes `uuid` is written from. -/
  uuid : Guid
  deriving DecidableEq

/-- What is reported of an entry. -/
def infoOf (dev : BlockDev) (e : GptEntry) : PartitionInfo where
  start := lbaint e.startingLba
  size := lbaint (lbaint e.endingLba + 1 + 2 ^ 32 - lbaint e.startingLba)
  blksz := dev.blksz
  name := cString (printEfiname e)
  bootable := isBootable e
  uuid := e.uniquePartitionGuid

/-- `get_partition_info_efi`; `none` where it returns -1. -/
def getPartitionInfoEfi (dev : BlockDev) (disk : Memory) (part : Nat) : Option PartitionInfo :=
  if part < 1 then none
  else
    match (isGptValid dev disk 1).or (isGptValid dev disk (lbaint (dev.lba + 2 ^ 32 - 1))) with
    | none => none
    | some (h, pte) =>
      let e := GptEntry.decode (bytesAt pte ((part - 1) * gptEntryBytes) gptEntryBytes)
      if part > h.numPartitionEntries ∨ ¬isPteValid e then none else some (infoOf dev e)

end HrppBoot.Disk
