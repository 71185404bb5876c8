import Mathlib.Algebra.Group.Nat.Defs
import Mathlib.Data.List.Basic

/-!
# Partitions of MTD devices

The variable `mtdparts` lists the devices and their partitions: sizes and offsets with the suffixes
of powers of 1024, a name in parentheses, and `ro`. `parse_mtdparts` reads the list, and
`generate_mtdparts` writes it after a partition was added or deleted. A partition whose offset is
left out follows the one before it in the text; in the list of a device the partitions are sorted by
their offset. The names that the parser makes up for partitions without one are left out, and so is
the current partition. Numbers of type `u64` are reduced modulo 2^64.
-/

namespace HrppBoot.Parts

/-- The characters of a string up to its NUL. -/
abbrev Text := List Char

def sizeRemaining : Nat := 2 ^ 64 - 1

def offsetNotSpecified : Nat := 2 ^ 64 - 1

def minPartSize : Nat := 4096

/-! ## Numbers -/

def isxdigit (c : Char) : Bool :=
  c.isDigit || ('a' ≤ c && c ≤ 'f') || ('A' ≤ c && c ≤ 'F')

/-- The value of a digit. -/
def digitValue (c : Char) : Nat :=
  if c.isDigit then c.toNat - '0'.toNat
  else if 'a' ≤ c then c.toNat - 'a'.toNat + 10
  else c.toNat - 'A'.toNat + 10

/-- The loop of `simple_strtoull`: the number, and what is behind it. -/
def strtoullDigits (base : Nat) : Nat → Text → Nat × Text
  | result, [] => (result, [])
  | result, c :: cp =>
    if isxdigit c ∧ digitValue c < base then
      strtoullDigits base ((result * base + digitValue c) % 2 ^ 64) cp
    else (result, c :: cp)

/-- `simple_strtoull` with base 0 -/
def simpleStrtoull : Text → Nat × Text
  | '0' :: 'x' :: c :: cp =>
    if isxdigit c then strtoullDigits 16 0 (c :: cp) else strtoullDigits 8 0 ('x' :: c :: cp)
  | '0' :: cp => strtoullDigits 8 0 cp
  | cp => strtoullDigits 10 0 cp

def memsizeParse (ptr : Text) : Nat × Text :=
  let (ret, retptr) := simpleStrtoull ptr
  match retptr with
  | 'G' :: retptr | 'g' :: retptr => (ret * 2 ^ 30 % 2 ^ 64, retptr)
  | 'M' :: retptr | 'm' :: retptr => (ret * 2 ^ 20 % 2 ^ 64, retptr)
  | 'K' :: retptr | 'k' :: retptr => (ret * 2 ^ 10 % 2 ^ 64, retptr)
  | retptr => (ret, retptr)

def memsizeFormat (size : Nat) : Text :=
  if size % 2 ^ 30 = 0 then Nat.toDigits 10 (size / 2 ^ 30) ++ ['g']
  else if size % 2 ^ 20 = 0 then Nat.toDigits 10 (size / 2 ^ 20) ++ ['m']
  else if size % 2 ^ 10 = 0 then Nat.toDigits 10 (size / 2 ^ 10) ++ ['k']
  else Nat.toDigits 10 size

/-! ## Devices and partitions -/

structure PartInfo where
  /-- `name`, where it is not `auto_name`. -/
  name : Option Text
  size : Nat
  offset : Nat
  maskFlags : Nat
  deriving DecidableEq, Repr

structure Mtdids where
  type : Nat
  num : Nat
  size : Nat
  mtdId : Text
  deriving DecidableEq, Repr

structure MtdDevice where
  id : Mtdids
  parts : List PartInfo
  deriving DecidableEq, Repr

/-- `num_parts`, in 16 bits. -/
def MtdDevice.numParts (dev : MtdDevice) : Nat := dev.parts.length % 2 ^ 16

/-- An entry of `eraseregions`. -/
structure EraseRegion where
  offset : Nat
  erasesize : Nat
  numblocks : Nat

structure MtdInfo where
  erasesize : Nat
  eraseregions : List EraseRegion

/-- The devices that `get_mtd_info` finds. -/
abbrev MtdTable := Nat → Nat → Option MtdInfo

/-- Where the blocks of the regions start, and behind the last one `start` itself. -/
def blockStarts (regions : List EraseRegion) : List Nat :=
  regions.flatMap fun region =>
    (List.range region.numblocks).map fun j => (region.offset + j * region.erasesize) % 2 ^ 32

/-- What `start` is after the loops. -/
def lastStart (regions : List EraseRegion) : Nat :=
  match regions.getLast? with
  | none => 0
  | some region => (region.offset + region.numblocks * region.erasesize) % 2 ^ 32

def partValidateEraseblock (table : MtdTable) (id : Mtdids) (part : PartInfo) : Bool :=
  match table id.type id.num with
  | none => false
  | some mtd =>
    if mtd.eraseregions = [] then
      part.offset % mtd.erasesize = 0 ∧ part.size % mtd.erasesize = 0
    else
      let starts := blockStarts mtd.eraseregions
      let stop := (part.offset + part.size) % 2 ^ 64
      part.offset ∈ starts ∧ (stop ∈ starts ∨ stop = lastStart mtd.eraseregions)

/-- `part_validate`: the partition, with the size that remains where it has none. -/
def partValidate (table : MtdTable) (id : Mtdids) (part : PartInfo) : Option PartInfo :=
  let part := if part.size = sizeRemaining then
      { part with size := (id.size + 2 ^ 64 - part.offset) % 2 ^ 64 }
    else part
  if id.size < part.offset then none
  else if (part.offset + part.size) % 2 ^ 64 ≤ part.offset then none
  else if id.size < (part.offset + part.size) % 2 ^ 64 then none
  else if partValidateEraseblock table id part then some part
  else none

/-- `part_sort_add`: the list with the partition; none where it has one at offset 0 already. -/
def partSortAdd (part : PartInfo) : List PartInfo → Option (List PartInfo)
  | [] => some [part]
  | pi :: parts =>
    if part.offset = pi.offset ∧ pi.offset = 0 then none
    else if part.offset ≤ pi.offset then some (part :: pi :: parts)
    else (partSortAdd part parts).map (pi :: ·)

/-! ## Parsing -/

/-- `strchr`: what is before the first such character, and what is behind it. -/
def strchr (c : Char) : Text → Option (Text × Text)
  | [] => none
  | d :: p => if d = c then some ([], p) else (strchr c p).map fun (text, p) => (d :: text, p)

/-- The size of a partition: all that remains, or what is given. -/
def fetchSize : Text → Option (Nat × Text)
  | '-' :: p => some (sizeRemaining, p)
  | p =>
    let parsed := memsizeParse p
    if parsed.1 < minPartSize then none else some parsed

/-- The offset of a partition, if there is one. -/
def checkOffset : Text → Nat × Text
  | '@' :: p => memsizeParse p
  | p => (offsetNotSpecified, p)

/-- The name of a partition, if there is one. -/
def lookForName : Text → Option (Option Text × Text)
  | '(' :: p =>
    match strchr ')' p with
    | none => none
    | some ([], _) => none
    | some (name, p) => some (some name, p)
  | p => some (none, p)

/-- The options of a partition. -/
def testOptions : Text → Nat × Text
  | 'r' :: 'o' :: p => (1, p)
  | p => (0, p)

/-- Where the next partition starts; none behind a partition that takes all that remains. -/
def checkNext (size : Nat) : Text → Option Text
  | ',' :: p => if size = sizeRemaining then none else some p
  | [] => some []
  | ';' :: p => some (';' :: p)
  | _ => none

/-- `part_parse`: the partition, and where the next one starts. -/
def partParse (partdef : Text) : Option (PartInfo × Text) := do
  let (size, p) ← fetchSize partdef
  let (offset, p) := checkOffset p
  let (name, p) ← lookForName p
  let (maskFlags, p) := testOptions p
  let p ← checkNext size p
  some (⟨name, size, offset, maskFlags⟩, p)

/-- One turn of the loop of `device_parse`: a partition with its offset, and what is behind it. -/
def nextPart (table : MtdTable) (id : Mtdids) (offset : Nat) (p : Text) :
    Option (PartInfo × Text) := do
  let (part, p) ← partParse p
  let part := if part.offset = offsetNotSpecified then { part with offset := offset } else part
  let part ← partValidate table id part
  some (part, p)

/-- The loop of `device_parse`, for a number of turns: the partitions of a device from an offset on,
and what is behind them. Each turn takes at least one character. -/
def parseParts (table : MtdTable) (id : Mtdids) (offset : Nat) (p : Text) :
    Nat → Option (List PartInfo × Text)
  | 0 => some ([], p)
  | turns + 1 =>
    match p with
    | [] => some ([], [])
    | ';' :: p => some ([], ';' :: p)
    | p => do
      let (part, p) ← nextPart table id offset p
      let (parts, p) ← parseParts table id ((part.offset + part.size) % 2 ^ 64) p turns
      some (part :: parts, p)

/-- The partitions, each added to those before it. -/
def addAll (parts : List PartInfo) : Option (List PartInfo) :=
  parts.foldlM (fun sorted part => partSortAdd part sorted) []

def idFindByMtdId (ids : List Mtdids) (mtdId : Text) : Option Mtdids :=
  ids.find? fun id => id.mtdId = mtdId

def deviceFind (devices : List MtdDevice) (type num : Nat) : Option MtdDevice :=
  devices.find? fun dev => dev.id.type = type ∧ dev.id.num = num

/-- `device_parse`: the device, and where the next one starts. -/
def deviceParse (table : MtdTable) (ids : List Mtdids) (devices : List MtdDevice) (mtdDev : Text) :
    Option (MtdDevice × Text) := do
  let (mtdId, p) ← strchr ':' mtdDev
  let id ← idFindByMtdId ids mtdId
  let offset := match deviceFind devices id.type id.num with
    | none => 0
    | some dev =>
      match dev.parts.getLast? with
      | none => 0
      | some part => (part.offset + part.size) % 2 ^ 64
  let (parts, p) ← parseParts table id offset p p.length
  if parts.length % 2 ^ 16 = 0 then none
  else do
    let parts ← addAll parts
    match p with
    | [] => some (⟨id, parts⟩, [])
    | ';' :: p => some (⟨id, parts⟩, p)
    | _ => none

/-- The loop of `parse_mtdparts`, for a number of turns. Each turn takes at least one character. -/
def parseDevices (table : MtdTable) (ids : List Mtdids) (devices : List MtdDevice) (p : Text) :
    Nat → Option (List MtdDevice)
  | 0 => some devices
  | turns + 1 =>
    if p = [] then some devices
    else do
      let (dev, p) ← deviceParse table ids devices p
      if (deviceFind devices dev.id.type dev.id.num).isSome then none
      else parseDevices table ids (devices ++ [dev]) p turns

/-- The start of the variable. -/
def mtdpartsText : Text := ['m', 't', 'd', 'p', 'a', 'r', 't', 's', '=']

/-- `parse_mtdparts`: what it returns, and the devices that there are then. -/
def parseMtdparts (table : MtdTable) (ids : List Mtdids) (mtdparts : Text) :
    Int × List MtdDevice :=
  if mtdpartsText <+: mtdparts then
    let p := mtdparts.drop 9
    if p = [] then (1, [])
    else
      match parseDevices table ids [] p p.length with
      | none => (1, [])
      | some devices => (0, devices)
  else (1, [])

/-! ## Generating -/

def mtdpartsMaxlen : Nat := 512

/-- A text that is copied to the buffer while there is room for it: the room that is left. -/
def copyText (text : Text) (maxlen : Nat) : Option (Text × Nat) :=
  if maxlen < text.length then none else some (text, maxlen - text.length)

/-- A text that is copied under a condition. -/
def copyIf (written : Bool) (text : Text) (maxlen : Nat) : Option (Text × Nat) :=
  if written then copyText text maxlen else some ([], maxlen)

/-- There is a gap between a partition and the one before it, or the start of the device. -/
def gapBefore (prevPart : Option PartInfo) (part : PartInfo) : Bool :=
  match prevPart with
  | none => part.offset != 0
  | some prevPart => (prevPart.offset + prevPart.size) % 2 ^ 64 != part.offset

/-- One partition of a device, with its separator. -/
def generatePart (numParts : Nat) (prevPart : Option PartInfo) (part : PartInfo)
    (partCnt maxlen : Nat) : Option (Text × Nat) := do
  let (size, maxlen) ← copyText (memsizeFormat part.size) maxlen
  let (offset, maxlen) ←
    copyIf (gapBefore prevPart part) ('@' :: memsizeFormat part.offset) maxlen
  let (name, maxlen) ← copyIf part.name.isSome ('(' :: (part.name.getD [] ++ [')'])) maxlen
  let (ro, maxlen) ← copyIf (part.maskFlags != 0) ['r', 'o'] maxlen
  let (comma, maxlen) ← copyIf (partCnt < numParts) [','] maxlen
  some (size ++ offset ++ name ++ ro ++ comma, maxlen)

/-- The loop over the partitions of a device. -/
def generateParts (numParts : Nat) (prevPart : Option PartInfo) (partCnt maxlen : Nat) :
    List PartInfo → Option (Text × Nat)
  | [] => some ([], maxlen)
  | part :: parts => do
    let (text, maxlen) ← generatePart numParts prevPart part (partCnt + 1) maxlen
    let (rest, maxlen) ← generateParts numParts (some part) (partCnt + 1) maxlen parts
    some (text ++ rest, maxlen)

/-- The loop over the devices. -/
def generateDevices (maxlen : Nat) : List MtdDevice → Option Text
  | [] => some []
  | dev :: devices => do
    let (mtdId, maxlen) ← copyText (dev.id.mtdId ++ [':']) maxlen
    let (parts, maxlen) ← generateParts dev.numParts none 0 maxlen dev.parts
    let (semicolon, maxlen) ← copyIf (devices ≠ []) [';'] maxlen
    let rest ← generateDevices maxlen devices
    some (mtdId ++ parts ++ semicolon ++ rest)

def generateMtdparts (devices : List MtdDevice) (buflen : Nat) : Option Text :=
  if devices = [] then some []
  else (generateDevices ((buflen + 2 ^ 32 - 1) % 2 ^ 32) devices).map (mtdpartsText ++ ·)

/-! ## Adding and deleting -/

/-- `mtdparts add`, with the description that it makes of its arguments. -/
def mtdpartsAdd (table : MtdTable) (ids : List Mtdids) (devices : List MtdDevice) (tmpbuf : Text) :
    List MtdDevice :=
  match deviceParse table ids devices tmpbuf with
  | none => devices
  | some (dev, _) =>
    match deviceFind devices dev.id.type dev.id.num with
    | none => devices ++ [dev]
    | some devTmp =>
      match dev.parts.head?.bind (partValidate table devTmp.id) with
      | none => devices
      | some p =>
        match partSortAdd p devTmp.parts with
        | none => devices
        | some parts => devices.map fun dev =>
            if dev.id.type = devTmp.id.type ∧ dev.id.num = devTmp.id.num then
              { dev with parts := parts }
            else dev

/-- `part_del`, of a partition of a device by their numbers in the lists. -/
def partDel (devices : List MtdDevice) (d k : Nat) : List MtdDevice :=
  match devices[d]? with
  | none => devices
  | some dev =>
    if dev.parts.length ≤ k then devices
    else if dev.numParts = 1 then devices.eraseIdx d
    else devices.set d { dev with parts := dev.parts.eraseIdx k }

/-- The devices that parsing, adding and deleting can build. -/
inductive Built (table : MtdTable) (ids : List Mtdids) : List MtdDevice → Prop where
  | parse (mtdparts : Text) : Built table ids (parseMtdparts table ids mtdparts).2
  /-- `mtdparts add` -/
  | add {devices : List MtdDevice} (tmpbuf : Text) (built : Built table ids devices) :
      Built table ids (mtdpartsAdd table ids devices tmpbuf)
  /-- `mtdparts del` -/
  | del {devices : List MtdDevice} (d k : Nat) (built : Built table ids devices) :
      Built table ids (partDel devices d k)

end HrppBoot.Parts
