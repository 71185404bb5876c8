import HrppBoot.Lib.Align
import HrppBoot.Lib.ByteWords

/-!
# Programming a CFI flash

`write_buff` copies bytes to a NOR flash in words of the width of its port. The first and the last
word may take bytes that the flash has already; the words between are written one by one, or in
chunks through the write buffer of the chip. A word that is written leaves the conjunction of the
old and the new bits. What the chip reports after a command, and whether the user breaks off, are
parameters, and so is the build. Addresses do not run over the end of the address space.
-/

namespace HrppBoot.Flash

open ByteWords

/-! ## The bank -/

/-- The widths of a port and of a chip. -/
inductive CfiWidth where
  /-- `FLASH_CFI_8BIT`, `FLASH_CFI_BY8` -/
  | w8
  /-- `FLASH_CFI_16BIT`, `FLASH_CFI_BY16` -/
  | w16
  /-- `FLASH_CFI_32BIT`, `FLASH_CFI_BY32` -/
  | w32
  /-- `FLASH_CFI_64BIT`, `FLASH_CFI_BY64` -/
  | w64
  deriving DecidableEq, Repr

/-- The width in bytes. -/
def CfiWidth.bytes : CfiWidth → Nat
  | .w8 => 1
  | .w16 => 2
  | .w32 => 4
  | .w64 => 8

/-- The command sets of the banks that are found. -/
inductive Vendor where
  /-- `CFI_CMDSET_INTEL_EXTENDED`, `CFI_CMDSET_INTEL_STANDARD`, `CFI_CMDSET_INTEL_PROG_REGIONS` -/
  | intel
  /-- `CFI_CMDSET_AMD_STANDARD` and `CFI_CMDSET_AMD_EXTENDED` -/
  | amd
  /-- `CFI_CMDSET_AMD_LEGACY` -/
  | amdLegacy
  deriving DecidableEq, Repr

/-- `flash_info_t` -/
structure FlashInfo where
  portwidth : CfiWidth
  chipwidth : CfiWidth
  bufferSize : Nat
  vendor : Vendor

/-- The build, the chip and the user. -/
structure Board where
  order : Order
  /-- `CONFIG_SYS_FLASH_USE_BUFFER_WRITE` -/
  useBufferWrite : Bool
  report : Nat → Int
  /-- What each call of `ctrlc` returns. -/
  ctrlc : Nat → Bool

/-- The flash, and how often it was looked at. -/
structure FlashState where
  byte : Nat → BitVec 8
  checks : Nat
  /-- The number of calls of `ctrlc`. -/
  keys : Nat

def errOk : Int := 0

def errNotErased : Int := 2

def errInval : Int := 8

def errAborted : Int := 256

/-- `cfiword_t`, the member for the width of the port. -/
abbrev Cfiword (width : CfiWidth) := BitVec (8 * width.bytes)

section Words

variable (board : Board) (info : FlashInfo)

/-- `flash_read8` to `flash_read64` -/
def flashRead (byte : Nat → BitVec 8) (addr : Nat) : Cfiword info.portwidth :=
  ofBytes board.order info.portwidth.bytes fun k => byte (addr + k)

/-- `flash_write8` to `flash_write64`: the chip programs the bits that are 0. -/
def flashWrite (state : FlashState) (value : Cfiword info.portwidth) (addr : Nat) : FlashState :=
  { state with byte := fun a =>
      if addr ≤ a ∧ a < addr + info.portwidth.bytes then
        state.byte a &&& byteOf board.order value (a - addr)
      else state.byte a }

/-- `flash_full_status_check`, `flash_status_check` and `flash_status_poll` -/
def flashStatus (state : FlashState) : Int × FlashState :=
  (board.report state.checks, { state with checks := state.checks + 1 })

def flashAddByte (cword : Cfiword info.portwidth) (c : BitVec 8) : Cfiword info.portwidth :=
  match info.portwidth, board.order, cword with
  | .w8, _, _ => c
  | .w16, .little, w => w >>> 8 ||| c.setWidth (8 * CfiWidth.bytes .w16) <<< 8
  | .w16, .big, w => w <<< 8 ||| c.setWidth (8 * CfiWidth.bytes .w16)
  | .w32, .little, l => l >>> 8 ||| c.setWidth (8 * CfiWidth.bytes .w32) <<< 24
  | .w32, .big, l => l <<< 8 ||| c.setWidth (8 * CfiWidth.bytes .w32)
  | .w64, .little, ll => ll >>> 8 ||| c.setWidth (8 * CfiWidth.bytes .w64) <<< 56
  | .w64, .big, ll => ll <<< 8 ||| c.setWidth (8 * CfiWidth.bytes .w64)

/-- The loops that add bytes to a word. -/
def flashAddBytes (cword : Cfiword info.portwidth) (bytes : List (BitVec 8)) :
    Cfiword info.portwidth :=
  bytes.foldl (flashAddByte board info) cword

def flashWriteCfiword (state : FlashState) (dest : Nat) (cword : Cfiword info.portwidth) :
    Int × FlashState :=
  if flashRead board info state.byte dest &&& cword = cword then
    flashStatus board (flashWrite board info state cword dest)
  else (errNotErased, state)

/-- The first loop of `flash_write_cfibuffer`, for the words that are left: whether the flash has
the bits of the source. -/
def erasedFor (state : FlashState) (source : Nat → BitVec 8) (src dst2 : Nat) : Nat → Bool
  | 0 => true
  | cnt + 1 =>
    if flashRead board info state.byte dst2 &&& flashRead board info source src =
        flashRead board info source src then
      erasedFor state source (src + info.portwidth.bytes) (dst2 + info.portwidth.bytes) cnt
    else false

/-- The loop that fills the buffer, for the words that are left. -/
def fillBuffer (state : FlashState) (source : Nat → BitVec 8) (src dst : Nat) : Nat → FlashState
  | 0 => state
  | cnt + 1 =>
    fillBuffer (flashWrite board info state (flashRead board info source src) dst) source
      (src + info.portwidth.bytes) (dst + info.portwidth.bytes) cnt

def flashWriteCfibuffer (state : FlashState) (dest : Nat) (source : Nat → BitVec 8) (cp len : Nat) :
    Int × FlashState :=
  let cnt := len / info.portwidth.bytes
  if erasedFor board info state source cp dest cnt then
    match info.vendor with
    | .intel =>
      let (retcode, state) := flashStatus board state
      if retcode = errOk then
        flashStatus board (fillBuffer board info state source cp dest cnt)
      else (retcode, state)
    | .amd => flashStatus board (fillBuffer board info state source cp dest cnt)
    | .amdLegacy => (errInval, state)
  else (errNotErased, state)

end Words

/-! ## Copying -/

/-- How far the copy is: the flash address, the byte of the source, and what is left. -/
structure Copy where
  wp : Nat
  src : Nat
  cnt : Nat
  deriving DecidableEq, Repr

section Copy

variable (board : Board) (info : FlashInfo) (source : Nat → BitVec 8)

/-- `n` bytes of the source. -/
def sourceBytes (src n : Nat) : List (BitVec 8) := (List.range n).map fun k => source (src + k)

/-- `n` bytes of the flash. -/
def flashBytes (state : FlashState) (addr n : Nat) : List (BitVec 8) :=
  (List.range n).map fun k => state.byte (addr + k)

/-- How many bytes of the source the first word takes behind `aln` bytes of the flash. -/
def headTaken (width aln cnt : Nat) : Nat := min (width - aln) cnt

/-- How many bytes of the flash it takes behind them, where the source ends. -/
def headBehind (width aln cnt : Nat) : Nat :=
  if cnt - headTaken width aln cnt = 0 then width - aln - headTaken width aln cnt else 0

/-- The unaligned start: the first word, with what the flash has before the source, and behind it
where the source ends. `blank` is what `cword` holds after `cword.l = 0`, for each word. -/
def writeHead (state : FlashState) (blank : Nat → Cfiword info.portwidth) (addr cnt : Nat) :
    Except Int Copy × FlashState :=
  let wp := Align.down addr info.portwidth.bytes
  let aln := addr - wp
  if aln = 0 then (.ok ⟨wp, 0, cnt⟩, state)
  else
    let taken := headTaken info.portwidth.bytes aln cnt
    let behind := headBehind info.portwidth.bytes aln cnt
    let cword := flashAddBytes board info (blank wp)
      (flashBytes state wp aln ++ sourceBytes source 0 taken ++
        flashBytes state (wp + aln + taken) behind)
    let (rc, state) := flashWriteCfiword board info state wp cword
    if rc ≠ errOk then (.error rc, state)
    else (.ok ⟨wp + (aln + taken + behind), taken, cnt - taken⟩, state)

/-- One word of the aligned part. -/
def writeWord (state : FlashState) (blank : Nat → Cfiword info.portwidth) (copy : Copy) :
    Except Int Copy × FlashState :=
  let cword := flashAddBytes board info (blank copy.wp)
    (sourceBytes source copy.src info.portwidth.bytes)
  let (rc, state) := flashWriteCfiword board info state copy.wp cword
  if rc ≠ errOk then (.error rc, state)
  else
    (.ok ⟨copy.wp + info.portwidth.bytes, copy.src + info.portwidth.bytes,
      copy.cnt - info.portwidth.bytes⟩, state)

/-- Whether the user breaks off, which is asked every once in a while. -/
def checkCtrlc (state : FlashState) (limit : Nat) (copy : Copy) : Except Int Copy × FlashState :=
  if copy.cnt % 2 ^ 16 < limit then
    let state' := { state with keys := state.keys + 1 }
    if board.ctrlc state.keys then (.error errAborted, state') else (.ok copy, state')
  else (.ok copy, state)

/-- One turn of the loop over the aligned part. A division by zero has no result. -/
def writeTurn (state : FlashState) (blank : Nat → Cfiword info.portwidth) (copy : Copy) :
    Option (Except Int Copy × FlashState) :=
  let width := info.portwidth.bytes
  if board.useBufferWrite then
    let bufferedSize := width / info.chipwidth.bytes * info.bufferSize
    if info.bufferSize = 1 then some (writeWord board info source state blank copy)
    else if bufferedSize = 0 then none
    else
      let i := min (bufferedSize - copy.wp % bufferedSize) copy.cnt
      let (rc, state) := flashWriteCfibuffer board info state copy.wp source copy.src i
      if rc ≠ errOk then some (.error rc, state)
      else
        let i := i - i % width
        some (checkCtrlc board state bufferedSize ⟨copy.wp + i, copy.src + i, copy.cnt - i⟩)
  else
    match writeWord board info source state blank copy with
    | (.ok copy, state) => some (checkCtrlc board state width copy)
    | (.error rc, state) => some (.error rc, state)

/-- The loop over the aligned part, for a number of turns. -/
def writeAligned (state : FlashState) (blank : Nat → Cfiword info.portwidth) (copy : Copy) :
    Nat → Option (Except Int Copy × FlashState)
  | 0 => none
  | turns + 1 =>
    if copy.cnt < info.portwidth.bytes then some (.ok copy, state)
    else
      match writeTurn board info source state blank copy with
      | none => none
      | some (.error rc, state) => some (.error rc, state)
      | some (.ok copy, state) => writeAligned state blank copy turns

/-- The unaligned tail: the last word, with what the flash has behind the source. -/
def writeTail (state : FlashState) (blank : Nat → Cfiword info.portwidth) (copy : Copy) :
    Int × FlashState :=
  if copy.cnt = 0 then (errOk, state)
  else
    let taken := min info.portwidth.bytes copy.cnt
    let cword := flashAddBytes board info (blank copy.wp)
      (sourceBytes source copy.src taken ++
        flashBytes state (copy.wp + taken) (info.portwidth.bytes - taken))
    flashWriteCfiword board info state copy.wp cword

/-- `write_buff`, with the turns that its loop may take; none where these do not do. -/
def writeBuff (state : FlashState) (blank : Nat → Cfiword info.portwidth) (addr cnt turns : Nat) :
    Option (Int × FlashState) :=
  match writeHead board info source state blank addr cnt with
  | (.error rc, state) => some (rc, state)
  | (.ok copy, state) =>
    match writeAligned board info source state blank copy turns with
    | none => none
    | some (.error rc, state) => some (rc, state)
    | some (.ok copy, state) => some (writeTail board info source state blank copy)

end Copy

end HrppBoot.Flash
