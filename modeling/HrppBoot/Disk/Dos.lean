import HrppBoot.Lib.Memory

/-!
# Partition tables of boot records

`part_dos.c`: the search for a partition by its number and the listing of all partitions. Both walk
from the table of the master boot record through the chain of extended boot records. `int` has 32
bits and wraps, `lbaint_t` has 32 bits without a sign. A part number is counted without a bound. The
recursion of the source follows whatever the disk says, so both walks have a number of tables they
may read, and no result when it does not suffice.
-/

namespace HrppBoot.Disk

open ByteMemory

/-! ## Tables -/

/-- `if_type` (`IF_TYPE_…`), as far as names depend on it. -/
inductive IfType where
  | ide
  | sata
  | atapi
  | scsi
  | usb
  | doc
  | other

/-- `block_dev_desc_t`, as far as it is used. -/
structure DosDev where
  /-- `block_read` of one block; `none` where it does not return 1. -/
  blockRead : UInt32 → Option Memory
  lba : UInt32
  ifType : IfType
  dev : Nat

/-- `dos_partition_t`, without the geometry that nothing reads. -/
@[ext]
structure DosPartition where
  bootInd : UInt8
  sysInd : UInt8
  start4 : UInt32
  size4 : UInt32
  deriving DecidableEq

def le32ToInt (word : UInt32) : Int32 := word.toInt32

def isExtended (partType : UInt8) : Bool := partType == 0x5 || partType == 0xf || partType == 0x85

def DosPartition.isBootable (p : DosPartition) : Bool := p.bootInd == 0x80

/-- The entry at a slot of the table, from `DOS_PART_TBL_OFFSET` on. -/
def dosSlot (buffer : Memory) (slot : Nat) : DosPartition where
  bootInd := buffer (0x1be + 16 * slot)
  sysInd := buffer (0x1be + 16 * slot + 4)
  start4 := buffer.word32 (0x1be + 16 * slot + 8)
  size4 := buffer.word32 (0x1be + 16 * slot + 12)

/-- The four entries of a table. -/
def dosTable (buffer : Memory) : List DosPartition := (List.range 4).map (dosSlot buffer)

/-- What `test_block_type` returns. -/
inductive BlockType where
  /-- `DOS_MBR`. -/
  | mbr
  /-- `DOS_PBR`. -/
  | pbr
  | unknown
  deriving DecidableEq

/-- The signature at `DOS_PART_MAGIC_OFFSET`. -/
def hasMagic (buffer : Memory) : Bool := buffer 0x1fe == 0x55 && buffer 0x1ff == 0xaa

/-- The text of a file system stands at one of the two offsets. -/
def fatText (buffer : Memory) : Bool :=
  buffer.load 0x36 3 == [70, 65, 84] || buffer.load 0x52 5 == [70, 65, 84, 51, 50]

/-- The loop of `test_block_type` from a slot on. The pointer is not advanced, so that it is the
first entry that is tested for each slot. -/
def testSlots (buffer : Memory) (p : DosPartition) : List Nat → BlockType
  | [] => .mbr
  | slot :: rest =>
    if p.bootInd ≠ 0 ∧ p.bootInd ≠ 0x80 then
      if slot = 0 ∧ fatText buffer then .pbr else .unknown
    else testSlots buffer p rest

def testBlockType (buffer : Memory) : BlockType :=
  if hasMagic buffer then testSlots buffer (dosSlot buffer 0) [0, 1, 2] else .unknown

/-- An entry that is counted and shown in an extended table. -/
def DosPartition.used (p : DosPartition) : Bool := p.sysInd != 0 && !isExtended p.sysInd

/-- The part number behind an entry. -/
def countSlot (extPartSector : Int32) (p : DosPartition) (partNum : Int) : Int :=
  if extPartSector = 0 ∨ p.used then partNum + 1 else partNum

/-- The number of the first sector of the table an extended entry leads to. -/
def followSector (p : DosPartition) (relative : Int32) : Int32 := le32ToInt p.start4 + relative

/-! ## The search -/

/-- `disk_partition_t`, without the identifier that is not configured. -/
structure DosInfo where
  start : UInt32
  size : UInt32
  blksz : Nat
  name : String
  type : String
  bootable : Bool
  deriving DecidableEq

/-- The head of a name for a kind of interface. -/
def IfType.label : IfType → String
  | .ide | .sata | .atapi => "hd"
  | .scsi => "sd"
  | .usb => "usbd"
  | .doc => "docd"
  | .other => "xx"

def dosPartDefaultSector : Nat := 512

/-- What is filled in for an entry. -/
def dosInfo (d : DosDev) (extPartSector : Int32) (partNum : Int) (p : DosPartition) : DosInfo where
  start := (extPartSector + le32ToInt p.start4).toUInt32
  size := (le32ToInt p.size4).toUInt32
  blksz := dosPartDefaultSector
  name := d.ifType.label ++ String.singleton (Char.ofNat (97 + d.dev)) ++ toString partNum
  type := "U-Boot"
  bootable := p.isBootable

/-- The first loop of `get_partition_info_extended`: the entry with the number, or the number behind
the last entry. -/
def searchSlots (extPartSector : Int32) (whichPart : Int) :
    Int → List DosPartition → DosPartition ⊕ Int
  | partNum, [] => .inr partNum
  | partNum, p :: rest =>
    if p.bootInd &&& 0x7f = 0 ∧ p.sysInd ≠ 0 ∧ partNum = whichPart ∧ isExtended p.sysInd = false then
      .inl p
    else searchSlots extPartSector whichPart (countSlot extPartSector p partNum) rest

/-- `get_partition_info_extended` for a number of tables it may read. The inner `none` is where it
returns -1. -/
def getPartitionInfoExtended (d : DosDev) (whichPart : Int) (info : DosInfo) :
    Nat → Int32 → Int32 → Int → Option (Option DosInfo)
  | 0, _, _, _ => none
  | tables + 1, extPartSector, relative, partNum =>
    match d.blockRead extPartSector.toUInt32 with
    | none => some none
    | some buffer =>
      if hasMagic buffer then
        match searchSlots extPartSector whichPart partNum (dosTable buffer) with
        | .inl p => some (some (dosInfo d extPartSector whichPart p))
        | .inr partNum =>
          match (dosTable buffer).find? fun p => isExtended p.sysInd with
          | some p =>
            let lbaStart := followSector p relative
            getPartitionInfoExtended d whichPart info tables lbaStart
              (if extPartSector = 0 then lbaStart else relative) partNum
          | none =>
            if testBlockType buffer = .pbr then
              some (some { info with
                start := 0, size := d.lba, blksz := dosPartDefaultSector, type := "U-Boot",
                bootable := false })
            else some none
      else some none

def getPartitionInfoDos (d : DosDev) (part : Int) (info : DosInfo) (tables : Nat) :
    Option (Option DosInfo) :=
  getPartitionInfoExtended d part info tables 0 0 1

/-! ## The listing -/

/-- A line of the listing. -/
inductive DosLine where
  /-- `print_one_part`: number, first sector, number of sectors, signature, type, and the two
  marks. -/
  | part (partNum : Int) (lbaStart lbaSize : Int32) (disksig : UInt32) (sysInd : UInt8)
      (extended bootable : Bool)
  | unreadable (dev : Nat) (extPartSector : Int32)
  | badSignature (first second : UInt8)
  deriving DecidableEq

def printOnePart (p : DosPartition) (extPartSector : Int32) (partNum : Int) (disksig : UInt32) :
    DosLine :=
  .part partNum (extPartSector + le32ToInt p.start4) (le32ToInt p.size4) disksig p.sysInd
    (isExtended p.sysInd) p.isBootable

/-- The first loop of `print_partition_extended`: its lines and the number behind the last entry. -/
def printSlots (extPartSector : Int32) (disksig : UInt32) :
    Int → List DosPartition → List DosLine × Int
  | partNum, [] => ([], partNum)
  | partNum, p :: rest =>
    let shown := p.sysInd ≠ 0 ∧ (extPartSector = 0 ∨ isExtended p.sysInd = false)
    let later := printSlots extPartSector disksig (countSlot extPartSector p partNum) rest
    ((if shown then printOnePart p extPartSector partNum disksig :: later.1 else later.1), later.2)

/-- Lines of several walks in a row. -/
def joinLines : List (Option (List DosLine)) → Option (List DosLine)
  | [] => some []
  | walk :: rest => walk.bind fun lines => (joinLines rest).map fun later => lines ++ later

/-- `print_partition_extended` for a number of tables it may read in a row. -/
def printPartitionExtended (d : DosDev) :
    Nat → Int32 → Int32 → Int → UInt32 → Option (List DosLine)
  | 0, _, _, _, _ => none
  | tables + 1, extPartSector, relative, partNum, disksig =>
    match d.blockRead extPartSector.toUInt32 with
    | none => some [.unreadable d.dev extPartSector]
    | some buffer =>
      if testBlockType buffer ≠ .mbr then some [.badSignature (buffer 0x1fe) (buffer 0x1ff)]
      else
        let disksig := if extPartSector = 0 then buffer.word32 0x1b8 else disksig
        let slots := printSlots extPartSector disksig partNum (dosTable buffer)
        let extended := (dosTable buffer).filter fun p => isExtended p.sysInd
        (joinLines (extended.map fun p =>
          let lbaStart := followSector p relative
          printPartitionExtended d tables lbaStart
            (if extPartSector = 0 then lbaStart else relative) slots.2 disksig)).map
          fun later => slots.1 ++ later

/-- `print_part_dos`, behind the line with the headings. -/
def printPartDos (d : DosDev) (tables : Nat) : Option (List DosLine) :=
  printPartitionExtended d tables 0 0 1 0

end HrppBoot.Disk
