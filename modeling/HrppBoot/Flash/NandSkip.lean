import Mathlib.Tactic.Ring
import Mathlib.Data.List.Basic

/-!
# Reading and writing around bad blocks

`nand_write_skip_bad` and `nand_read_skip_bad` with a 64-bit `loff_t` and a 32-bit `size_t`, on a
device whose page reads and writes succeed: `mtd_write` and `mtd_read` only refuse what is outside
the device. Flash memory is a function from addresses to bytes; what is written to it is combined
with what is there.
-/

namespace HrppBoot.Flash

/-- `nand_info_t`: the geometry of a device, and its bad blocks by their addresses. -/
structure NandInfo where
  erasesize : Nat
  writesize : Nat
  size : Nat
  /-- `_block_isbad` -/
  isbad : Nat → Bool
  /-- `CONFIG_CMD_NAND_TRIMFFS` -/
  trimffs : Bool
  /-- Blocks have a power of two of bytes, which a `uint32_t` counts. -/
  erasesize_pow : ∃ k < 32, erasesize = 2 ^ k
  writesize_pow : ∃ k, writesize = 2 ^ k
  pages : writesize ∣ erasesize
  blocks : erasesize ∣ size

theorem pow_seventeen : ∃ k < 32, (2 ^ 17 : Nat) = 2 ^ k := ⟨17, by decide, rfl⟩

theorem pow_eleven : ∃ k, (2 ^ 11 : Nat) = 2 ^ k := ⟨11, rfl⟩

theorem pow_eleven_dvd : (2 ^ 11 : Nat) ∣ 2 ^ 17 := ⟨2 ^ 6, rfl⟩

/-- The bits of `flags`. -/
structure Flags where
  dropFfs : Bool
  wrVerify : Bool

namespace NandInfo

theorem erasesize_pos (nand : NandInfo) : 0 < nand.erasesize := by
  obtain ⟨k, -, same⟩ := nand.erasesize_pow
  rw [same]
  exact Nat.two_pow_pos k

theorem writesize_pos (nand : NandInfo) : 0 < nand.writesize := by
  obtain ⟨k, same⟩ := nand.writesize_pow
  rw [same]
  exact Nat.two_pow_pos k

variable (nand : NandInfo)

/-- `offset & (nand->erasesize - 1)` -/
def blockOffset (offset : Nat) : Nat := offset % nand.erasesize

/-- `offset & ~(loff_t)(nand->erasesize - 1)` -/
def blockStart (offset : Nat) : Nat := offset - offset % nand.erasesize

/-- `offset & ~(nand->erasesize - 1)`: the mask has 32 bits. -/
def blockStart32 (offset : Nat) : Nat :=
  offset % 2 ^ 32 - offset % 2 ^ 32 % nand.erasesize

/-- `nand_block_isbad`: also true for an error. -/
def blockIsbad (ofs : Nat) : Bool := if nand.size < ofs then true else nand.isbad ofs

/-- The loop of `check_skip_len`: `len_excl_bad`, `*used` and `ret`, or `none` for -1. -/
def checkSkipLoop (length offset lenExclBad used : Nat) (ret : Bool) : Option (Nat × Nat × Bool) :=
  if lenExclBad < length then
    if nand.size ≤ offset then none
    else
      let blockLen := nand.erasesize - nand.blockOffset offset
      if nand.blockIsbad (nand.blockStart offset) then
        checkSkipLoop length (offset + blockLen) lenExclBad ((used + blockLen) % 2 ^ 32) true
      else
        checkSkipLoop length (offset + blockLen) ((lenExclBad + blockLen) % 2 ^ 32)
          ((used + blockLen) % 2 ^ 32) ret
  else some (lenExclBad, used, ret)
termination_by nand.size - offset
decreasing_by
  all_goals
    have := Nat.mod_lt offset nand.erasesize_pos
    unfold blockOffset
    omega

/-- `check_skip_len`: `*used`, and whether there are bad blocks. -/
def checkSkipLen (offset length : Nat) : Option (Nat × Bool) :=
  match nand.checkSkipLoop length offset 0 0 false with
  | none => none
  | some (lenExclBad, used, ret) =>
    some (if length < lenExclBad then (used + (2 ^ 32 - (lenExclBad - length))) % 2 ^ 32 else used,
      ret)

/-- The length of a buffer up to its last byte that is not 0xff. -/
def lastUsed (buffer : Nat → UInt8) (pos : Nat) : Nat → Nat
  | 0 => 0
  | n + 1 => if buffer (pos + n) ≠ 0xff then n + 1 else lastUsed buffer pos n

def dropFfs (buffer : Nat → UInt8) (pos len : Nat) : Nat :=
  min ((lastUsed buffer pos len + nand.writesize - 1) / nand.writesize * nand.writesize) len

/-- `nand_write` from `buffer + pos`; `none` for `-EINVAL`. -/
def nandWrite (flash : Nat → UInt8) (ofs len : Nat) (buffer : Nat → UInt8) (pos : Nat) :
    Option (Nat → UInt8) :=
  if nand.size < ofs ∨ nand.size - ofs < len then none
  else some fun i =>
    if ofs ≤ i ∧ i < ofs + len then flash i &&& buffer (pos + (i - ofs)) else flash i

/-- `nand_read` to `buffer + pos`; `none` for `-EINVAL`. -/
def nandRead (flash : Nat → UInt8) (ofs len : Nat) (buffer : Nat → UInt8) (pos : Nat) :
    Option (Nat → UInt8) :=
  if nand.size < ofs ∨ nand.size - ofs < len then none
  else some fun i => if pos ≤ i ∧ i < pos + len then flash (ofs + (i - pos)) else buffer i

def einval : Int := 22

def efbig : Int := 27

def eio : Int := 5

/-- The loop of `nand_verify` up to `stop`; `verofs` has 32 bits. -/
def verifyLoop (flash : Nat → UInt8) (buffer : Nat → UInt8) (stop : Nat) :
    (fuel verofs pos : Nat) → Option Int
  | 0, _, _ => none
  | fuel + 1, verofs, pos =>
    if verofs < stop then
      let verlen := min nand.writesize ((stop - verofs) % 2 ^ 32)
      if nand.size < verofs ∨ nand.size - verofs < verlen then some (-eio)
      else if ∀ k < verlen, buffer (pos + k) = flash (verofs + k) then
        verifyLoop flash buffer stop fuel ((verofs + verlen) % 2 ^ 32) (pos + verlen)
      else some (-eio)
    else some 0

def nandVerify (fuel : Nat) (flash : Nat → UInt8) (ofs len : Nat) (buffer : Nat → UInt8)
    (pos : Nat) : Option Int :=
  nand.verifyLoop flash buffer (ofs + len) fuel (ofs % 2 ^ 32) pos

/-- The state of `nand_write_skip_bad`: the flash memory, and the calls of `nand_write` with their
offsets and lengths. -/
structure Written where
  flash : Nat → UInt8
  writes : List (Nat × Nat)

/-- `nand_write` and, with `WITH_WR_VERIFY`, `nand_verify`: the result and the state behind them. -/
def writeVerified (fuel : Nat) (flags : Flags) (ofs len : Nat) (buffer : Nat → UInt8) (pos : Nat)
    (state : Written) : Option (Int × Written) :=
  match nand.nandWrite state.flash ofs len buffer pos with
  | none => some (-einval, state)
  | some flash =>
    let state : Written := ⟨flash, state.writes ++ [(ofs, len)]⟩
    if flags.wrVerify then
      match nand.nandVerify fuel flash ofs len buffer pos with
      | none => none
      | some rval => some (rval, state)
    else some (0, state)

/-- The loop of `nand_write_skip_bad`: the result, `left_to_write` and the state behind it. -/
def writeLoop (flags : Flags) (buffer : Nat → UInt8) :
    (fuel offset left pos : Nat) → Written → Option (Int × Nat × Written)
  | 0, _, _, _, _ => none
  | fuel + 1, offset, left, pos, state =>
    if left = 0 then some (0, 0, state)
    else
      let rest := nand.erasesize - nand.blockOffset offset
      if nand.blockIsbad (nand.blockStart32 offset) then
        writeLoop flags buffer fuel (offset + rest) left pos state
      else
        let writeSize := if left < rest then left else rest
        let truncated :=
          if nand.trimffs && flags.dropFfs then nand.dropFfs buffer pos writeSize else writeSize
        match nand.writeVerified fuel flags offset truncated buffer pos state with
        | none => none
        | some (rval, state) =>
          if rval ≠ 0 then some (rval, left, state)
          else writeLoop flags buffer fuel (offset + writeSize) (left - writeSize)
            (pos + writeSize) state

/-- What `nand_write_skip_bad` leaves behind. -/
structure WriteResult where
  ret : Int
  length : Nat
  actual : Nat
  /-- The flash memory and the calls of `nand_write`. -/
  state : Written

/-- `*used` when `check_skip_len` returns -1. -/
def usedAtEnd (offset : Nat) : Nat := (nand.size - offset) % 2 ^ 32

def nandWriteSkipBad (fuel : Nat) (flash : Nat → UInt8) (offset length : Nat) (lim : Int)
    (buffer : Nat → UInt8) (flags : Flags) : Option WriteResult :=
  if offset % nand.writesize ≠ 0 then some ⟨-einval, 0, 0, ⟨flash, []⟩⟩
  else
    match nand.checkSkipLen offset length with
    | none => some ⟨-einval, 0, nand.usedAtEnd offset, ⟨flash, []⟩⟩
    | some (used, needSkip) =>
      if lim < used then some ⟨-efbig, 0, used, ⟨flash, []⟩⟩
      else if !needSkip && !flags.dropFfs then
        match nand.writeVerified fuel flags offset length buffer 0 ⟨flash, []⟩ with
        | none => none
        | some (rval, state) =>
          if rval = 0 then some ⟨0, length, used, state⟩ else some ⟨rval, 0, used, state⟩
      else
        match nand.writeLoop flags buffer fuel offset length 0 ⟨flash, []⟩ with
        | none => none
        | some (rval, left, state) => some ⟨rval, length - left, used, state⟩

/-- The loop of `nand_read_skip_bad`: the result, `left_to_read` and the buffer behind it. -/
def readLoop (flash : Nat → UInt8) :
    (fuel offset left pos : Nat) → (Nat → UInt8) → Option (Int × Nat × (Nat → UInt8))
  | 0, _, _, _, _ => none
  | fuel + 1, offset, left, pos, buffer =>
    if left = 0 then some (0, 0, buffer)
    else
      let rest := nand.erasesize - nand.blockOffset offset
      if nand.blockIsbad (nand.blockStart32 offset) then
        readLoop flash fuel (offset + rest) left pos buffer
      else
        let readLength := if left < rest then left else rest
        match nand.nandRead flash offset readLength buffer pos with
        | none => some (-einval, left, buffer)
        | some buffer =>
          readLoop flash fuel (offset + readLength) (left - readLength) (pos + readLength) buffer

/-- What `nand_read_skip_bad` leaves behind. -/
structure ReadResult where
  ret : Int
  length : Nat
  actual : Nat
  buffer : Nat → UInt8

def nandReadSkipBad (fuel : Nat) (flash : Nat → UInt8) (offset length : Nat) (lim : Int)
    (buffer : Nat → UInt8) : Option ReadResult :=
  if offset % nand.writesize ≠ 0 then some ⟨-einval, 0, 0, buffer⟩
  else
    match nand.checkSkipLen offset length with
    | none => some ⟨-einval, 0, nand.usedAtEnd offset, buffer⟩
    | some (used, needSkip) =>
      if lim < used then some ⟨-efbig, 0, used, buffer⟩
      else if !needSkip then
        match nand.nandRead flash offset length buffer 0 with
        | none => some ⟨-einval, 0, used, buffer⟩
        | some buffer => some ⟨0, length, used, buffer⟩
      else
        match nand.readLoop flash fuel offset length 0 buffer with
        | none => none
        | some (rval, left, buffer) => some ⟨rval, length - left, used, buffer⟩

end NandInfo

end HrppBoot.Flash
