import Mathlib.Data.UInt

/-!
# Boot images for i.MX processors

`mkimage -T imximage` for version 2 images, on a little-endian host with 64-bit `long`: the
configuration file is parsed once for the size of the header and once more when the header in the
file is filled in, with the variables of `imximage.c` kept in between. The two layouts of the header
are kept apart; for version 1 only what the parser does is modelled.
-/

namespace HrppBoot.Tools

/-! ## Configuration files -/

/-- The words of a text between separators, as `strtok_r` finds them. -/
def words (separator : Char → Bool) (text : List Char) : List (List Char) :=
  (text.splitOnP separator).filter (· ≠ [])

/-- The tokens of a line that `parse_cfg_file` looks at. -/
def tokensOfLine (line : List Char) : List (List Char) :=
  match words (fun c => c = '\r' || c = '\n') line with
  | [] => []
  | token :: _ =>
    (words (fun c => c = ' ' || c = '\t') token).takeWhile fun token => token.head? ≠ some '#'

/-- The digit of a hexadecimal number. -/
def hexValue (c : Char) : Option Nat :=
  if '0' ≤ c ∧ c ≤ '9' then some (c.toNat - '0'.toNat)
  else if 'a' ≤ c ∧ c ≤ 'f' then some (c.toNat - 'a'.toNat + 10)
  else if 'A' ≤ c ∧ c ≤ 'F' then some (c.toNat - 'A'.toNat + 10)
  else none

/-- The text behind a prefix `0x` that a digit follows. -/
def dropHexPrefix : List Char → List Char
  | '0' :: x :: digit :: rest =>
    if (x = 'x' ∨ x = 'X') ∧ hexValue digit ≠ none then digit :: rest
    else '0' :: x :: digit :: rest
  | text => text

/-- The number that digits stand for. -/
def hexNumber (digits : List Char) : Nat :=
  digits.foldl (fun value c => value * 16 + (hexValue c).getD 0) 0

/-- `strtoul` with base 16; `none` where it reads no digit or sets `errno`. -/
def strtoul16 (token : List Char) : Option Nat :=
  let text := token.dropWhile fun c => c = ' ' || (9 ≤ c.toNat && c.toNat ≤ 13)
  let negative := text.head? = some '-'
  let text := if text.head? = some '-' ∨ text.head? = some '+' then text.tail else text
  let digits := (dropHexPrefix text).takeWhile fun c => (hexValue c).isSome
  let value := hexNumber digits
  if digits = [] ∨ 2 ^ 64 ≤ value then none
  else if negative then some ((2 ^ 64 - value) % 2 ^ 64)
  else some value

/-- `get_cfg_value`; `none` where it exits. -/
def getCfgValue (token : List Char) : Option UInt32 := (strtoul16 token).map UInt32.ofNat

/-- `get_table_entry_id`: the names are compared without regard to case. -/
def getTableEntryId {α : Type} (table : List (String × α)) (name : List Char) : Option α :=
  (table.find? fun entry => entry.1.toList.map Char.toLower = name.map Char.toLower).map (·.2)

/-- `enum imximage_cmd`: `CMD_…` -/
inductive ImximageCmd where
  | imageVersion
  | bootFrom
  | bootOffset
  | data
  | csf
  deriving DecidableEq, Repr

def imximageCmds : List (String × ImximageCmd) :=
  [("BOOT_FROM", .bootFrom), ("BOOT_OFFSET", .bootOffset), ("DATA", .data), ("CSF", .csf),
    ("IMAGE_VERSION", .imageVersion)]

def imximageBootOffset : List (String × UInt32) :=
  [("onenand", 0x100), ("nand", 0x400), ("nor", 0x1000), ("sata", 0x400), ("sd", 0x400),
    ("spi", 0x400), ("qspi", 0x1000)]

def imximageBootLoadsize : List (String × UInt32) :=
  [("onenand", 0x400), ("nand", 0x1000), ("nor", 0x0), ("sata", 0x1000), ("sd", 0x1000),
    ("spi", 0x1000), ("qspi", 0x0)]

def flashOffsetUndefined : UInt32 := 0xffffffff

def maxHwCfgSizeV1 : Nat := 60

def maxHwCfgSizeV2 : Nat := 220

/-! ## The parser -/

/-- `dcd_addr_data_t` -/
structure DcdAddrData where
  addr : UInt32
  value : UInt32
  deriving DecidableEq, Repr

/-- `dcd_type_addr_data_t` -/
structure DcdTypeAddrData where
  type : UInt32
  addr : UInt32
  value : UInt32
  deriving DecidableEq, Repr

/-- The variables of `imximage.c` and `parse_cfg_file`, and the tables of the header. -/
structure Imximage where
  /-- `imximage_version`, which the function pointers go with. -/
  version : UInt32
  ivtOffset : UInt32
  csfSize : UInt32
  initLoadsize : UInt32
  cmdVerFirst : Int
  dcdLen : Nat
  /-- `addr_data` of version 2 and what lies behind. -/
  addrData : Nat → DcdAddrData
  /-- `addr_data` of version 1 and what lies behind. -/
  typeAddrData : Nat → DcdTypeAddrData
  /-- The entries of `addr_data` of version 2 that were written to. -/
  stores : List Nat

/-- Whether the program goes on, or exits with an error. -/
abbrev Step := Except Imximage Imximage

/-- `enum imximage_fld_types`: `CFG_…` -/
inductive CfgFld where
  | command
  | regSize
  | regAddress
  | regValue
  | other
  deriving DecidableEq, Repr

/-- The field behind a field. -/
def CfgFld.next : CfgFld → CfgFld
  | command => regSize
  | regSize => regAddress
  | regAddress => regValue
  | regValue | other => other

namespace Imximage

variable (s : Imximage)

def setDcdValV1 (fld : CfgFld) (value : UInt32) (off : Nat) : Step :=
  match fld with
  | .regSize =>
    if value ≠ 1 ∧ value ≠ 2 ∧ value ≠ 4 then .error s
    else .ok { s with
      typeAddrData := Function.update s.typeAddrData off { s.typeAddrData off with type := value } }
  | .regAddress => .ok { s with
      typeAddrData := Function.update s.typeAddrData off { s.typeAddrData off with addr := value } }
  | .regValue => .ok { s with
      typeAddrData :=
        Function.update s.typeAddrData off { s.typeAddrData off with value := value } }
  | .command | .other => .ok s

def setDcdValV2 (fld : CfgFld) (value : UInt32) (off : Nat) : Step :=
  match fld with
  | .regAddress => .ok { s with
      addrData := Function.update s.addrData off { s.addrData off with addr := value }
      stores := s.stores ++ [off] }
  | .regValue => .ok { s with
      addrData := Function.update s.addrData off { s.addrData off with value := value }
      stores := s.stores ++ [off] }
  | .command | .regSize | .other => .ok s

def setDcdVal (fld : CfgFld) (value : UInt32) (off : Nat) : Step :=
  if s.version = 2 then s.setDcdValV2 fld value off else s.setDcdValV1 fld value off

def maxDcdEntries : Nat := if s.version = 2 then maxHwCfgSizeV2 else maxHwCfgSizeV1

/-- A command comes before `IMAGE_VERSION`. -/
def otherFirst : Imximage := if s.cmdVerFirst ≠ 1 then { s with cmdVerFirst := 0 } else s

def parseCfgCmd (cmd : ImximageCmd) (token : List Char) : Step :=
  match cmd with
  | .imageVersion =>
    match getCfgValue token with
    | none => .error s
    | some value =>
      if s.cmdVerFirst = 0 then .error { s with version := value }
      else if value = 1 ∨ value = 2 then .ok { s with version := value, cmdVerFirst := 1 }
      else .error { s with version := value, cmdVerFirst := 1 }
  | .bootFrom =>
    match getTableEntryId imximageBootOffset token, getTableEntryId imximageBootLoadsize token with
    | some offset, some loadsize =>
      .ok { s with
        ivtOffset := offset
        initLoadsize := if loadsize < offset then offset else loadsize }.otherFirst
    | some offset, none => .error { s with ivtOffset := offset, initLoadsize := 0xffffffff }
    | none, _ => .error { s with ivtOffset := 0xffffffff }
  | .bootOffset =>
    match getCfgValue token with
    | none => .error s
    | some value => .ok { s with ivtOffset := value }.otherFirst
  | .data =>
    match getCfgValue token with
    | none => .error s
    | some value => do
      let s ← s.setDcdVal .regSize value s.dcdLen
      .ok s.otherFirst
  | .csf =>
    if s.version ≠ 2 then .error s
    else
      match getCfgValue token with
      | none => .error s
      | some value => .ok { s with csfSize := value }.otherFirst

/-- `parse_cfg_fld` with a command. -/
def parseCfgFld (cmd : ImximageCmd) (token : List Char) (fld : CfgFld) : Step :=
  match fld with
  | .regSize => s.parseCfgCmd cmd token
  | .regAddress =>
    if cmd ≠ .data then .ok s
    else
      match getCfgValue token with
      | none => .error s
      | some value => s.setDcdVal .regAddress value s.dcdLen
  | .regValue =>
    if cmd ≠ .data then .ok s
    else
      match getCfgValue token with
      | none => .error s
      | some value => do
        let s ← s.setDcdVal .regValue value s.dcdLen
        let s := { s with dcdLen := s.dcdLen + 1 }
        if s.maxDcdEntries < s.dcdLen then .error s else .ok s
  | .command | .other => .ok s

/-- The fields of a line behind its command. -/
def parseFields (cmd : ImximageCmd) : CfgFld → List (List Char) → Imximage → Step
  | _, [], s => .ok s
  | fld, token :: tokens, s => do
    let s ← s.parseCfgFld cmd token fld
    parseFields cmd fld.next tokens s

/-- The loop of `parse_cfg_file` inside a line. -/
def parseLine (line : List Char) : Step :=
  match tokensOfLine line with
  | [] => .ok s
  | token :: tokens =>
    match getTableEntryId imximageCmds token with
    | none => .error s
    | some cmd => parseFields cmd .regSize tokens s

/-- The loop of `parse_cfg_file` over the lines. -/
def parseLines : List (List Char) → Imximage → Step
  | [], s => .ok s
  | line :: lines, s => do
    let s ← s.parseLine line
    parseLines lines s

/-- `parse_cfg_file` behind the start of a pass, on a cleared header. -/
def parseCfgFile (lines : List (List Char)) : Step := do
  let s ← parseLines lines { s with
    version := 1
    ivtOffset := flashOffsetUndefined
    csfSize := 0
    dcdLen := 0
    addrData := fun _ => ⟨0, 0⟩
    typeAddrData := fun _ => ⟨0, 0, 0⟩ }
  if s.ivtOffset = flashOffsetUndefined then .error s else .ok s

/-- `sizeof(imx_header_v2_t)`, which `sizeof(struct imx_header)` is as well. -/
def sizeofHeader : Nat := 1812

/-- The load size has room for the header behind the offset. -/
def growLoadsize : Imximage :=
  if s.initLoadsize.toNat < s.ivtOffset.toNat + sizeofHeader then
    { s with initLoadsize := UInt32.ofNat (s.ivtOffset.toNat + sizeofHeader) }
  else s

end Imximage

/-- The variables at the start of the program. -/
def Imximage.start : Imximage where
  version := 0
  ivtOffset := 0xffffffff
  csfSize := 0xffffffff
  initLoadsize := 0
  cmdVerFirst := -1
  dcdLen := 0
  addrData _ := ⟨0, 0⟩
  typeAddrData _ := ⟨0, 0, 0⟩
  stores := []

/-! ## The image -/

/-- `imx_header_v2_t`: the fields of `fhdr` and `boot_data` that are no constants, and the
tables. -/
structure ImxHeaderV2 where
  entry : UInt32
  dcdPtr : UInt32
  bootDataPtr : UInt32
  self : UInt32
  csf : UInt32
  start : UInt32
  size : UInt32
  /-- `dcd_table.header.length` -/
  dcdLength : Nat
  /-- `dcd_table.write_dcd_command.length` -/
  commandLength : Nat
  /-- `dcd_table.write_dcd_command.param` -/
  commandParam : Nat
  /-- `dcd_table.addr_data` -/
  addrData : Nat → DcdAddrData

/-- `offsetof(imx_header_v2_t, boot_data)` -/
def offsetofBootData : UInt32 := 32

/-- `offsetof(imx_header_v2_t, dcd_table)` -/
def offsetofDcdTable : UInt32 := 44

/-- An image file: the header and what is written behind it. -/
structure ImxImage where
  header : ImxHeaderV2
  /-- `header_size`, behind which the payload lies. -/
  headerSize : Nat
  fileSize : Nat

/-- `ROUND` to 4096 bytes. -/
def round4096 (n : Nat) : Nat := (n + 4095) / 4096 * 4096

/-- How much `copy_file` writes for a payload: the payload, as far as an `int` counts it, and the
padding that `imximage_generate` asks for. `none` where it exits. -/
def copyFile (payload : Nat) : Option Nat :=
  let size := Int.bmod payload (2 ^ 32)
  let pad := round4096 payload - payload
  if payload = 0 ∨ size < -1 then none
  else
    let tail := size.tmod 4
    let padded : Nat :=
      if pad = 1 ∧ tail ≠ 0 then (4 - tail).toNat else if 1 < pad then pad else 0
    some (size.toNat + padded)

/-- `imximage_set_header` behind the parser, with `set_imx_hdr_v2` and `set_dcd_rst_v2`. -/
def Imximage.setHeader (s : Imximage) (ep : UInt32) (fileSize : Nat) : ImxHeaderV2 :=
  let hdrBase := ep - s.initLoadsize + s.ivtOffset
  let size := UInt32.ofNat (round4096 (fileSize + s.ivtOffset.toNat))
  { entry := ep
    dcdPtr := hdrBase + offsetofDcdTable
    bootDataPtr := hdrBase + offsetofBootData
    self := hdrBase
    csf := if s.csfSize ≠ 0 then ep - s.initLoadsize + size else 0
    start := ep - s.initLoadsize
    size := if s.csfSize ≠ 0 then size + s.csfSize else size
    dcdLength := s.dcdLen * 8 + 8
    commandLength := s.dcdLen * 8 + 4
    commandParam := 4
    addrData := s.addrData }

/-- `mkimage` with a payload and the entry point `ep`: `imximage_generate`, the file, and
`imximage_set_header`. The image, or the variables when the program exits. -/
def mkimage (lines : List (List Char)) (ep : UInt32) (payload : Nat) :
    Except Imximage (Imximage × ImxImage) := do
  let s ← Imximage.start.parseCfgFile lines
  if s.version ≠ 2 then .error s
  else
    let s := s.growLoadsize
    let allocLen := s.initLoadsize - s.ivtOffset
    if allocLen.toNat < Imximage.sizeofHeader then .error s
    else
      match copyFile payload with
      | none => .error s
      | some written => do
        let fileSize := allocLen.toNat + written
        let s ← s.parseCfgFile lines
        let s := s.growLoadsize
        .ok (s, ⟨s.setHeader ep fileSize, allocLen.toNat, fileSize⟩)

end HrppBoot.Tools
