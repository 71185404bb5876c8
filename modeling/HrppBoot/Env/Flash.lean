import HrppBoot.Lib.Memory

/-!
# Reading and writing flash

`flash_read_buf` and `flash_write_buf` of `tools/env/fw_env.c`. The device is a memory; on NAND the
erase blocks that are marked bad are known by their start address. System calls may fail at given
addresses. Sizes and offsets are natural numbers; the erase size is positive, as both functions
divide by it.

The loops run on fuel for as many turns as there are addresses in the range: `none` stands for a
loop that does not end, which a write to a range of no sectors is. What lies behind the bytes that a
buffer is filled with is `junk`.
-/

namespace HrppBoot.Env

open ByteMemory

inductive MtdType where
  /-- `MTD_ABSENT`: not a flash device. -/
  | absent
  | nor
  | nand
  | dataflash
  | ubivolume
  deriving DecidableEq, Repr

/-- `struct envdev_s`, as far as it says where the environment is. -/
structure EnvDevice where
  devoff : Nat
  eraseSize : Nat
  envSectors : Nat
  positive : 0 < eraseSize

/-- Which calls fail, by the address they are for. -/
structure Faults where
  /-- `MEMGETBADBLOCK` -/
  test : Nat → Bool
  read : Nat → Bool
  /-- `MEMERASE` -/
  erase : Nat → Bool
  /-- `lseek` before a write -/
  seek : Nat → Bool
  write : Nat → Bool

/-- How a function returns. -/
inductive IoResult (α : Type) where
  | error
  | ok (value : α)
  deriving DecidableEq, Repr

/-- What is read, with some bytes read before it. -/
def IoResult.behind (bytes : List UInt8) : IoResult (List UInt8) → IoResult (List UInt8)
  | .error => .error
  | .ok more => .ok (bytes ++ more)

section Flash

variable (dev : EnvDevice) (type : MtdType) (bad : Nat → Bool) (faults : Faults)

def flashBadBlock (blockstart : Nat) : IoResult Bool :=
  if type = .nand then
    if faults.test blockstart then .error else .ok (bad blockstart)
  else .ok false

/-- The loop of `flash_read_buf`. -/
def readLoop (bytes : Memory) (blocklen topOfRange count : Nat) :
    (fuel blockstart blockSeek readlen processed : Nat) → Option (IoResult (List UInt8))
  | 0, _, _, _, _ => none
  | fuel + 1, blockstart, blockSeek, readlen, processed =>
    if count ≤ processed then some (.ok [])
    else
      match flashBadBlock type bad faults blockstart with
      | .error => some .error
      | .ok isBad =>
        if blockstart + blockSeek + readlen > topOfRange then some .error
        else if isBad then
          readLoop bytes blocklen topOfRange count fuel (blockstart + blocklen) blockSeek readlen
            processed
        else if faults.read (blockstart + blockSeek) then some .error
        else
          (readLoop bytes blocklen topOfRange count fuel (blockstart + blocklen) 0
            (min blocklen (count - (processed + readlen))) (processed + readlen)).map
              (IoResult.behind (bytes.load (blockstart + blockSeek) readlen))

/-- The start of the erase sector. -/
def EnvDevice.sectorStart (offset : Nat) : Nat := offset / dev.eraseSize * dev.eraseSize

/-- The end of the last block that may be used. -/
def EnvDevice.topOfRange : Nat := (dev.devoff / dev.eraseSize + dev.envSectors) * dev.eraseSize

def flashReadBuf (bytes : Memory) (count offset : Nat) : Option (IoResult (List UInt8)) :=
  let blockstart := dev.sectorStart offset
  let blockSeek := offset - blockstart
  if type = .nand then
    let blocklen := dev.eraseSize
    let readlen := if count > blocklen - blockSeek then blocklen - blockSeek else count
    readLoop type bad faults bytes blocklen dev.topOfRange count (dev.topOfRange + 2) blockstart
      blockSeek readlen 0
  else
    readLoop type bad faults bytes 0 (offset + count) count (offset + count + 2) blockstart blockSeek
      count 0

/-- The device needs to be erased before it is written. -/
def needsErase : Bool := type ≠ .absent ∧ type ≠ .dataflash

/-- `MEMERASE`, where it is needed. -/
def mtdErase (bytes : Memory) (start length : Nat) : Memory :=
  if needsErase type then bytes.fill start length 0xff else bytes

/-- `write`: what needs to be erased only has bits cleared. -/
def mtdWrite (bytes : Memory) (start : Nat) (data : List UInt8) : Memory :=
  if needsErase type then fun a =>
    if start ≤ a ∧ a < start + data.length then bytes a &&& data.getD (a - start) 0 else bytes a
  else bytes.store start data

/-- The loop of `flash_write_buf`. -/
def writeLoop (data : Memory) (blocklen erasesize topOfRange writeTotal : Nat) :
    (fuel blockstart processed : Nat) → Memory → Option (IoResult Memory)
  | 0, _, _, _ => none
  | fuel + 1, blockstart, processed, bytes =>
    if writeTotal ≤ processed then some (.ok bytes)
    else
      match flashBadBlock type bad faults blockstart with
      | .error => some .error
      | .ok isBad =>
        if blockstart + erasesize > topOfRange then some .error
        else if isBad then
          writeLoop data blocklen erasesize topOfRange writeTotal fuel (blockstart + blocklen)
            processed bytes
        else if needsErase type ∧ faults.erase blockstart then some .error
        else if faults.seek blockstart then some .error
        else if faults.write blockstart then some .error
        else
          writeLoop data blocklen erasesize topOfRange writeTotal fuel (blockstart + erasesize)
            (processed + erasesize)
            (mtdWrite type (mtdErase type bytes blockstart erasesize) blockstart
              (data.load processed erasesize))

/-- The bytes that are written: from the start of the first sector to the end of the last one. -/
def EnvDevice.writeTotal (count offset : Nat) : Nat :=
  (offset - dev.sectorStart offset + count + dev.eraseSize - 1) / dev.eraseSize * dev.eraseSize

/-- The buffer that is written: what the sectors hold, with the new bytes in it. -/
def writeData (junk bytes : Memory) (buf : List UInt8) (offset : Nat) : Option (IoResult Memory) :=
  if dev.writeTotal buf.length offset > buf.length then
    (flashReadBuf dev type bad faults bytes (dev.writeTotal buf.length offset)
      (dev.sectorStart offset)).map fun
        | .error => .error
        | .ok old => .ok ((junk.store 0 old).store (offset - dev.sectorStart offset) buf)
  else some (.ok (junk.store 0 buf))

/-- `flash_write_buf`: what the device holds afterwards. -/
def flashWriteBuf (junk bytes : Memory) (buf : List UInt8) (offset : Nat) :
    Option (IoResult Memory) :=
  if type = .absent then
    writeLoop type bad faults (junk.store 0 buf) buf.length buf.length (offset + buf.length) buf.length
      (offset + buf.length + 2) offset 0 bytes
  else
    let blocklen := dev.eraseSize
    let eraseOffset := dev.sectorStart offset
    let eraseLen := dev.topOfRange - eraseOffset
    let erasesize := if type = .nand then blocklen else eraseLen
    (writeData dev type bad faults junk bytes buf offset).bind fun
      | .error => some .error
      | .ok data =>
        writeLoop type bad faults data blocklen erasesize dev.topOfRange
          (dev.writeTotal buf.length offset) (dev.topOfRange + 2) eraseOffset 0 bytes

end Flash

end HrppBoot.Env
