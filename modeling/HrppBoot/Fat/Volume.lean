import HrppBoot.Lib.Memory
import Mathlib.Data.Nat.Bitwise
import Mathlib.Tactic.Ring

/-!
# File allocation table

`get_fatent` reads the table through a buffer of six sectors. The table itself is a function of the
volume's bytes; where the buffer holds a window of the table, `get_fatent` returns the entries of
the table, and leaves such a buffer behind.
-/

namespace HrppBoot.Fat

open ByteMemory

/-- Width of a table entry. -/
inductive FatSize where
  | fat12
  | fat16
  | fat32
  deriving DecidableEq, Repr

/-- The part of `fsdata` that stays the same while a volume is read. -/
structure Fsdata where
  fatsize : FatSize
  /-- `fatlength`, in sectors. -/
  fatlength : UInt32
  fatSect : Nat
  rootdirSect : Nat
  /-- `sect_size`, in bytes. -/
  sectSize : Nat
  /-- `clust_size`, in sectors. -/
  clustSize : Nat
  /-- `data_begin`: where cluster 0 would start. -/
  dataBegin : Int
  sector : 0 < sectSize

/-- Clusters have sectors. A boot sector may say otherwise. -/
class Fsdata.Clustered (mydata : Fsdata) : Prop where
  sectors : 0 < mydata.clustSize

theorem Fsdata.nonempty (mydata : Fsdata) [clustered : mydata.Clustered] :
    0 < mydata.clustSize * mydata.sectSize :=
  Nat.mul_pos clustered.sectors mydata.sector

/-- A sector of the usual size has bytes. -/
theorem usualSector : 0 < 512 := Nat.succ_pos 511

/-- The buffer of `fsdata`. -/
structure FatCache where
  fatbuf : Memory
  /-- `fatbufnum`, where −1 is `none`. -/
  fatbufnum : Option Nat

/-- `disk_read`: its return value and the bytes it leaves in the buffer. -/
abbrev DiskRead := Nat → Nat → Int × List UInt8

def fatbufBlocks : Nat := 6

def Fsdata.fatbufSize (mydata : Fsdata) : Nat := mydata.sectSize * fatbufBlocks

/-- Number of entries in the buffer: `FAT12BUFSIZE`, `FAT16BUFSIZE` or `FAT32BUFSIZE`. -/
def Fsdata.bufEntries (mydata : Fsdata) : Nat :=
  match mydata.fatsize with
  | .fat32 => mydata.fatbufSize / 4
  | .fat16 => mydata.fatbufSize / 2
  | .fat12 => mydata.fatbufSize * 2 / 3

/-- The entry of a buffer at an offset. -/
def bufEntry (fatsize : FatSize) (fatbuf : Memory) (offset : Nat) : Nat :=
  match fatsize with
  | .fat32 => (fatbuf.word32 (4 * offset)).toNat
  | .fat16 => fatbuf.half (2 * offset)
  | .fat12 =>
    let off16 := offset * 3 / 4
    match offset % 4 with
    | 0 => fatbuf.half (2 * off16) &&& 0xfff
    | 1 =>
      let val1 := fatbuf.half (2 * off16) &&& 0xf000
      let val2 := fatbuf.half (2 * (off16 + 1)) &&& 0x00ff
      (val2 <<< 4) ||| (val1 >>> 12)
    | 2 =>
      let val1 := fatbuf.half (2 * off16) &&& 0xff00
      let val2 := fatbuf.half (2 * (off16 + 1)) &&& 0x000f
      (val2 <<< 8) ||| (val1 >>> 8)
    | _ => (fatbuf.half (2 * off16) &&& 0xfff0) >>> 4

/-- `get_fatent`: the entry, and the buffer after it. A read that fails returns 0 and leaves the
number of the buffer as it was. -/
def getFatent (disk : DiskRead) (mydata : Fsdata) (cache : FatCache) (entry : Nat) :
    Nat × FatCache :=
  let bufnum := entry / mydata.bufEntries
  let offset := entry - bufnum * mydata.bufEntries
  if cache.fatbufnum = some bufnum then (bufEntry mydata.fatsize cache.fatbuf offset, cache)
  else
    let startblock := bufnum * fatbufBlocks
    let getsize := if mydata.fatlength.toNat < startblock + fatbufBlocks then
      (mydata.fatlength - UInt32.ofNat startblock).toNat else fatbufBlocks
    let (ret, bytes) := disk (startblock + mydata.fatSect) getsize
    let fatbuf := cache.fatbuf.store 0 bytes
    if ret < 0 then (0, { cache with fatbuf := fatbuf })
    else (bufEntry mydata.fatsize fatbuf offset, ⟨fatbuf, some bufnum⟩)

/-! ## The table -/

/-- The entry of the table on a volume. Two 12-bit entries share three bytes. -/
def fatEntry (volume : Memory) (mydata : Fsdata) (entry : Nat) : Nat :=
  let table := mydata.fatSect * mydata.sectSize
  match mydata.fatsize with
  | .fat32 => (volume.word32 (table + 4 * entry)).toNat
  | .fat16 => volume.half (table + 2 * entry)
  | .fat12 =>
    if entry % 2 = 0 then volume.half (table + entry * 3 / 2) % 4096
    else volume.half (table + entry * 3 / 2) / 16

/-- Where the bytes of an entry end. -/
def entryEnd (fatsize : FatSize) (entry : Nat) : Nat :=
  match fatsize with
  | .fat32 => 4 * entry + 4
  | .fat16 => 2 * entry + 2
  | .fat12 => entry * 3 / 2 + 2

/-- The table has the entry. -/
def Fsdata.HasEntry (mydata : Fsdata) (entry : Nat) : Prop :=
  entryEnd mydata.fatsize entry ≤ mydata.fatlength.toNat * mydata.sectSize

/-- All reads succeed and return the bytes of the volume. -/
def Reads (disk : DiskRead) (sectSize : Nat) (volume : Memory) : Prop :=
  ∀ block count, disk block count = ((count : Int), volume.load (block * sectSize) (count * sectSize))

/-- The buffer holds a window of the table, as far as the table reaches. -/
def Window (volume : Memory) (mydata : Fsdata) (fatbuf : Memory) (bufnum : Nat) : Prop :=
  ∀ i < mydata.fatbufSize, bufnum * mydata.fatbufSize + i < mydata.fatlength.toNat * mydata.sectSize →
    fatbuf i = volume (mydata.fatSect * mydata.sectSize + bufnum * mydata.fatbufSize + i)

/-- The buffer holds the window it is numbered for. -/
def Coherent (volume : Memory) (mydata : Fsdata) (cache : FatCache) : Prop :=
  ∀ bufnum, cache.fatbufnum = some bufnum → Window volume mydata cache.fatbuf bufnum

variable {mydata : Fsdata} {volume : Memory}

/-- Reading a window fills the buffer with it. -/
theorem window_of_read {disk : DiskRead}
    (reads : Reads disk mydata.sectSize volume) (fatbuf : Memory) (bufnum getsize : Nat)
    (asked : getsize = if mydata.fatlength.toNat < bufnum * fatbufBlocks + fatbufBlocks then
      (mydata.fatlength - UInt32.ofNat (bufnum * fatbufBlocks)).toNat else fatbufBlocks) :
    Window volume mydata
      (fatbuf.store 0 (disk (bufnum * fatbufBlocks + mydata.fatSect) getsize).2) bufnum := by
  intro i below inside
  have scaled : bufnum * mydata.fatbufSize = bufnum * fatbufBlocks * mydata.sectSize := by
    unfold Fsdata.fatbufSize
    ring
  have started : bufnum * fatbufBlocks < mydata.fatlength.toNat := by
    apply Nat.lt_of_mul_lt_mul_right (a := mydata.sectSize)
    omega
  have covered : i < getsize * mydata.sectSize := by
    rw [asked]
    split
    · have range := mydata.fatlength.toNat_lt
      have small : (UInt32.ofNat (bufnum * fatbufBlocks)).toNat = bufnum * fatbufBlocks := by
        rw [UInt32.toNat_ofNat']
        exact Nat.mod_eq_of_lt (by omega)
      rw [UInt32.toNat_sub_of_le _ _ (by rw [UInt32.le_iff_toNat_le, small]; omega), small,
        Nat.sub_mul]
      omega
    · rw [Nat.mul_comm]
      exact below
  rw [reads, Memory.store_inside _ _ _ _ (by simpa using covered), Nat.sub_zero]
  simp only [Memory.load, List.getD_eq_getElem?_getD, List.getElem?_map,
    List.getElem?_range covered, Option.map_some, Option.getD_some]
  congr 1
  rw [scaled]
  ring

theorem and_low (n bits : Nat) : n &&& (2 ^ bits - 1) = n % 2 ^ bits :=
  Nat.and_two_pow_sub_one_eq_mod n bits

theorem and_high (n bits shift : Nat) :
    (n &&& (2 ^ bits - 1) <<< shift) >>> shift = n / 2 ^ shift % 2 ^ bits := by
  rw [Nat.shiftRight_and_distrib, Nat.shiftLeft_shiftRight, and_low, Nat.shiftRight_eq_div_pow]

theorem shift_or (a : Nat) {b bits : Nat} (small : b < 2 ^ bits) :
    a <<< bits ||| b = a * 2 ^ bits + b := by
  rw [← Nat.shiftLeft_add_eq_or_of_lt small, Nat.shiftLeft_eq]

/-- The four cases of a 12-bit entry are two: the entry starts at a byte, or in the middle of
one. -/
theorem bufEntry_fat12 (fatbuf : Memory) (offset : Nat) :
    bufEntry .fat12 fatbuf offset =
      if offset % 2 = 0 then fatbuf.half (offset * 3 / 2) % 4096
      else fatbuf.half (offset * 3 / 2) / 16 := by
  have cases : offset % 4 = 0 ∨ offset % 4 = 1 ∨ offset % 4 = 2 ∨ offset % 4 = 3 := by omega
  obtain ⟨k, split⟩ : ∃ k, offset = 4 * k + offset % 4 := ⟨offset / 4, by omega⟩
  have byte (i : Nat) : (fatbuf i).toNat < 256 := (fatbuf i).toNat_lt
  have b0 := byte (6 * k)
  have b1 := byte (6 * k + 1)
  have b2 := byte (6 * k + 2)
  have b3 := byte (6 * k + 3)
  have b4 := byte (6 * k + 4)
  have b5 := byte (6 * k + 5)
  rcases cases with zero | one | two | three
  · have even : offset % 2 = 0 := by omega
    have off16 : 2 * (offset * 3 / 4) = offset * 3 / 2 := by omega
    simp only [bufEntry, zero, even, ↓reduceIte, off16]
    exact and_low _ 12
  · have odd : ¬offset % 2 = 0 := by omega
    have off16 : offset * 3 / 4 = 3 * k := by omega
    have start : offset * 3 / 2 = 6 * k + 1 := by omega
    have first := and_high (fatbuf.half (2 * (3 * k))) 4 12
    have second := and_low (fatbuf.half (2 * (3 * k + 1))) 8
    simp only [bufEntry, one, odd, ↓reduceIte, off16, start]
    simp only [Nat.reducePow, Nat.reduceSub, Nat.reduceShiftLeft] at first second
    rw [first, second, shift_or _ (by omega)]
    simp only [Memory.half, show 2 * (3 * k) = 6 * k by omega,
      show 2 * (3 * k + 1) = 6 * k + 2 by omega, Nat.add_assoc, Nat.reduceAdd]
    omega
  · have even : offset % 2 = 0 := by omega
    have off16 : offset * 3 / 4 = 3 * k + 1 := by omega
    have start : offset * 3 / 2 = 6 * k + 3 := by omega
    have first := and_high (fatbuf.half (2 * (3 * k + 1))) 8 8
    have second := and_low (fatbuf.half (2 * (3 * k + 1 + 1))) 4
    simp only [bufEntry, two, even, ↓reduceIte, off16, start]
    simp only [Nat.reducePow, Nat.reduceSub, Nat.reduceShiftLeft] at first second
    rw [first, second, shift_or _ (by omega)]
    simp only [Memory.half, show 2 * (3 * k + 1) = 6 * k + 2 by omega,
      show 2 * (3 * k + 1 + 1) = 6 * k + 4 by omega, Nat.add_assoc, Nat.reduceAdd]
    omega
  · have odd : ¬offset % 2 = 0 := by omega
    have off16 : offset * 3 / 4 = 3 * k + 2 := by omega
    have start : offset * 3 / 2 = 2 * (3 * k + 2) := by omega
    have only := and_high (fatbuf.half (2 * (3 * k + 2))) 12 4
    have range := fatbuf.half_lt (2 * (3 * k + 2))
    simp only [bufEntry, three, odd, ↓reduceIte, off16, start]
    simp only [Nat.reducePow, Nat.reduceSub, Nat.reduceShiftLeft] at only
    rw [only]
    omega

/-- Where a buffer holds its window, its entries are those of the table. -/
theorem bufEntry_eq_fatEntry {fatbuf : Memory} {bufnum offset entry : Nat}
    (even : 2 ∣ mydata.sectSize) (window : Window volume mydata fatbuf bufnum)
    (position : entry = bufnum * mydata.bufEntries + offset) (below : offset < mydata.bufEntries)
    (inside : mydata.HasEntry entry) :
    bufEntry mydata.fatsize fatbuf offset = fatEntry volume mydata entry := by
  obtain ⟨half, double⟩ := even
  have byte (i : Nat) (inBuffer : i < mydata.fatbufSize)
      (inTable : bufnum * mydata.fatbufSize + i < mydata.fatlength.toNat * mydata.sectSize) :
      fatbuf i = volume (mydata.fatSect * mydata.sectSize + (bufnum * mydata.fatbufSize + i)) := by
    rw [window i inBuffer inTable, Nat.add_assoc]
  have buffer : mydata.fatbufSize = 12 * half := by
    unfold Fsdata.fatbufSize fatbufBlocks
    omega
  unfold Fsdata.HasEntry at inside
  cases size : mydata.fatsize with
  | fat32 =>
    have entries : mydata.bufEntries = 3 * half := by
      simp only [Fsdata.bufEntries, size]
      omega
    have scaled : 4 * entry = bufnum * mydata.fatbufSize + 4 * offset := by
      rw [position, entries, buffer]
      ring
    simp only [entryEnd, size] at inside
    simp only [bufEntry, fatEntry, size, Memory.word32]
    rw [scaled, byte _ (by omega) (by omega), byte _ (by omega) (by omega),
      byte _ (by omega) (by omega), byte _ (by omega) (by omega)]
    simp only [Nat.add_assoc]
  | fat16 =>
    have entries : mydata.bufEntries = 6 * half := by
      simp only [Fsdata.bufEntries, size]
      omega
    have scaled : 2 * entry = bufnum * mydata.fatbufSize + 2 * offset := by
      rw [position, entries, buffer]
      ring
    simp only [entryEnd, size] at inside
    simp only [bufEntry, fatEntry, size, Memory.half]
    rw [scaled, byte _ (by omega) (by omega), byte _ (by omega) (by omega)]
    simp only [Nat.add_assoc]
  | fat12 =>
    have entries : mydata.bufEntries = 8 * half := by
      simp only [Fsdata.bufEntries, size]
      omega
    have scaled : entry * 3 = 2 * (bufnum * mydata.fatbufSize) + offset * 3 := by
      rw [position, entries, buffer]
      ring
    have start : entry * 3 / 2 = bufnum * mydata.fatbufSize + offset * 3 / 2 := by omega
    have parity : entry % 2 = offset % 2 := by
      have pairs : bufnum * mydata.bufEntries = 2 * (bufnum * (4 * half)) := by
        rw [entries]
        ring
      omega
    simp only [entryEnd, size] at inside
    rw [bufEntry_fat12]
    simp only [fatEntry, size, parity, start, Memory.half]
    rw [byte _ (by omega) (by omega), byte _ (by omega) (by omega)]
    simp only [Nat.add_assoc]

/-- `get_fatent` returns the entry of the table, and keeps the buffer coherent. -/
theorem getFatent_spec {disk : DiskRead} {cache : FatCache}
    (reads : Reads disk mydata.sectSize volume) (even : 2 ∣ mydata.sectSize)
    (coherent : Coherent volume mydata cache) {entry : Nat} (inside : mydata.HasEntry entry) :
    ∃ after, getFatent disk mydata cache entry = (fatEntry volume mydata entry, after) ∧
      Coherent volume mydata after := by
  have positive : 0 < mydata.bufEntries := by
    obtain ⟨half, double⟩ := even
    have sector := mydata.sector
    unfold Fsdata.bufEntries Fsdata.fatbufSize fatbufBlocks
    split <;> omega
  have position : entry = entry / mydata.bufEntries * mydata.bufEntries +
      (entry - entry / mydata.bufEntries * mydata.bufEntries) := by
    have := Nat.div_mul_le_self entry mydata.bufEntries
    omega
  have below : entry - entry / mydata.bufEntries * mydata.bufEntries < mydata.bufEntries := by
    have split := Nat.div_add_mod entry mydata.bufEntries
    have remainder := Nat.mod_lt entry positive
    rw [Nat.mul_comm] at split
    omega
  simp only [getFatent]
  split
  · rename_i cached
    have window := coherent _ cached
    rw [bufEntry_eq_fatEntry even window position below inside]
    exact ⟨cache, rfl, coherent⟩
  · have window := window_of_read reads cache.fatbuf (entry / mydata.bufEntries) _ rfl
    rw [reads] at window ⊢
    rw [if_neg (by omega), bufEntry_eq_fatEntry even window position below inside]
    refine ⟨_, rfl, ?_⟩
    intro bufnum same
    cases same
    exact window

end HrppBoot.Fat
