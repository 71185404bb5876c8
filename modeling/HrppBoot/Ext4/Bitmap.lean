import HrppBoot.Ext4.Dev
import HrppBoot.Lib.ByteBits
import HrppBoot.Lib.Traced

/-!
# The bitmaps of a group

The search for a clear bit in the bitmap of the blocks or the inodes of a group, and the functions
that set and clear the bit of a number. A bitmap has the bytes of one block.
-/

namespace HrppBoot.Ext4.Bitmap

open ByteMemory Traced ByteBits

/-- The numbers of a file system that the bitmaps depend on. -/
structure FileSystem where
  blksz : Nat
  inodesPerGroup : Nat
  blockSize : ∃ k ≤ 6, blksz = 1024 * 2 ^ k
  wholeBytes : 8 ∣ inodesPerGroup
  inodesFit : inodesPerGroup ≤ 8 * blksz

/-! ## The search -/

/-- The first loop of a search: it passes full bytes until the count says that the bitmap is full.
The result is where it stops and the count, none if it returns. It is given up while it still
runs. -/
def skipFull (m : Memory) (isFull : Nat → Bool) : (turns ptr count : Nat) →
    Traced (Option (Nat × Nat))
  | 0, _, _ => giveUp
  | turns + 1, ptr, count => do
    let byte ← readByte m ptr
    if byte = 255 then
      if isFull ((count + 8) % 2 ^ 32) then pure none
      else skipFull m isFull turns (ptr + 1) ((count + 8) % 2 ^ 32)
    else pure (some (ptr, count))

/-- The inner loop for a byte that was read, with a number of bits left: the number of its first
clear bit and the memory with the bit set, or the count behind the byte. -/
def takeBit (m : Memory) (ptr : Nat) (input : UInt8) : (left i count : Nat) →
    Traced ((Int × Memory) ⊕ Nat)
  | 0, _, count => pure (.inr count)
  | left + 1, i, count =>
    if input &&& mask i ≠ 0 then takeBit m ptr input left (i + 1) (count + 1)
    else do
      let changed ← writeBytes m ptr [input ||| mask i]
      pure (.inl (count, changed))

/-- The second loop, with a number of bytes left. -/
def takeByte (m : Memory) : (left ptr count : Nat) → Traced (Int × Memory)
  | 0, _, _ => pure (-1, m)
  | left + 1, ptr, count => do
    let input ← readByte m ptr
    let taken ← takeBit m ptr input 8 0 count
    match taken with
    | .inl result => pure result
    | .inr count => takeByte m left (ptr + 1) count

def getNew (m : Memory) (blksz first : Nat) (isFull : Nat → Bool) (buffer : Nat) :
    Traced (Int × Memory) := do
  let passed ← skipFull m isFull (2 ^ 32) buffer first
  match passed with
  | none => pure (-1, m)
  | some place => takeByte m blksz place.1 place.2

/-- The number of the first block of a bitmap. -/
def firstBlock (fs : FileSystem) : Nat := if fs.blksz ≠ 1024 then 0 else 1

def getNewBlkNo (fs : FileSystem) (m : Memory) (buffer : Nat) : Traced (Int × Memory) :=
  getNew m fs.blksz (firstBlock fs) (fun count => count == fs.blksz * 8) buffer

def getNewInodeNo (fs : FileSystem) (m : Memory) (buffer : Nat) : Traced (Int × Memory) :=
  getNew m fs.blksz 1 (fun count => decide (fs.inodesPerGroup < count)) buffer

/-! ## Numbers -/

/-- Where a number is in a bitmap: the distance of its byte from the buffer, and its bit. -/
abbrev Place := Int × UInt8

/-- The place of a number that is counted from one. -/
def placeFromOne (i remainder : Int) : Place :=
  if remainder = 0 then (i - 1, mask 7) else (i, mask (remainder - 1).toNat)

/-- The place that `ext4fs_set_block_bmap` and `ext4fs_reset_block_bmap` work out. -/
def blockPlace (fs : FileSystem) (blockno : Int) (index : Nat) : Place :=
  let i := toInt (blockno.tdiv 8 - toInt (index * fs.blksz))
  let remainder := blockno.tmod 8
  if fs.blksz ≠ 1024 then (i, mask remainder.toNat) else placeFromOne i remainder

/-- The place that `ext4fs_set_inode_bmap` and `ext4fs_reset_inode_bmap` work out. -/
def inodePlace (fs : FileSystem) (inodeNo : Int) (index : Nat) : Place :=
  let inGroup := toInt (inodeNo - (index * fs.inodesPerGroup : Nat))
  placeFromOne (inGroup.tdiv 8) (inGroup.tmod 8)

/-- The end of the functions that set a bit. -/
def setAt (m : Memory) (buffer : Nat) (place : Place) : Traced (Int × Memory) := do
  let ptr := (buffer + place.1).toNat
  let byte ← readByte m ptr
  if byte &&& place.2 ≠ 0 then pure (-1, m)
  else do
    let changed ← writeBytes m ptr [byte ||| place.2]
    pure (0, changed)

/-- The end of the functions that clear a bit. -/
def resetAt (m : Memory) (buffer : Nat) (place : Place) : Traced Memory := do
  let ptr := (buffer + place.1).toNat
  let byte ← readByte m ptr
  if byte &&& place.2 ≠ 0 then writeBytes m ptr [byte &&& ~~~place.2] else pure m

/-- `ext4fs_set_block_bmap` -/
def setBlockBmap (fs : FileSystem) (m : Memory) (blockno : Int) (buffer index : Nat) :
    Traced (Int × Memory) :=
  setAt m buffer (blockPlace fs blockno index)

/-- `ext4fs_reset_block_bmap` -/
def resetBlockBmap (fs : FileSystem) (m : Memory) (blockno : Int) (buffer index : Nat) :
    Traced Memory :=
  resetAt m buffer (blockPlace fs blockno index)

/-- `ext4fs_set_inode_bmap` -/
def setInodeBmap (fs : FileSystem) (m : Memory) (inodeNo : Int) (buffer index : Nat) :
    Traced (Int × Memory) :=
  setAt m buffer (inodePlace fs inodeNo index)

/-- `ext4fs_reset_inode_bmap` -/
def resetInodeBmap (fs : FileSystem) (m : Memory) (inodeNo : Int) (buffer index : Nat) :
    Traced Memory :=
  resetAt m buffer (inodePlace fs inodeNo index)

/-! ## What is wanted -/

def inUse (m : Memory) (buffer q : Nat) : Bool := bit (m (buffer + q / 8)) (q % 8)

structure Lowest (m : Memory) (buffer bits p : Nat) : Prop where
  inside : p < bits
  clear : inUse m buffer p = false
  below : ∀ q < p, inUse m buffer q = true

structure SetsOne (m changed : Memory) (buffer p : Nat) : Prop where
  bits : ∀ q, inUse changed buffer q = (inUse m buffer q || decide (p = q))
  front : ∀ a < buffer, changed a = m a

structure Functions where
  search : Memory → Nat → Traced (Int × Memory)
  /-- Setting the bit of a number, for a buffer and the index of a group. -/
  set : Memory → Int → Nat → Nat → Traced (Int × Memory)
  reset : Memory → Int → Nat → Nat → Traced Memory
  bits : Nat
  first : Nat

/-- The functions on the bitmap of the blocks. -/
def blocks (fs : FileSystem) : Functions :=
  ⟨getNewBlkNo fs, setBlockBmap fs, resetBlockBmap fs, 8 * fs.blksz, firstBlock fs⟩

/-- The functions on the bitmap of the inodes. -/
def inodes (fs : FileSystem) : Functions :=
  ⟨getNewInodeNo fs, setInodeBmap fs, resetInodeBmap fs, fs.inodesPerGroup, 1⟩

/-- In every group whose number fits an `int`, setting the bit of the number reports it in use, and
clearing it gives the memory before. -/
def NumberRight (f : Functions) (m changed : Memory) (buffer blksz n : Nat) : Prop :=
  ∀ index : Nat, index * f.bits + n < 2 ^ 31 →
    ((f.set changed (index * f.bits + n : Nat) buffer index).Keeps buffer (buffer + blksz) fun r =>
      r = (-1, changed)) ∧
    ((f.reset changed (index * f.bits + n : Nat) buffer index).Keeps buffer (buffer + blksz)
      fun r => r = m)

/-- What is wanted of the functions: they stay in the block. All bits are set and the search says
so, or it sets the lowest clear bit and returns its number. -/
def BitmapRight (f : Functions) (m : Memory) (buffer blksz : Nat) : Prop :=
  (f.search m buffer).Keeps buffer (buffer + blksz) fun r =>
    (r = (-1, m) ∧ ∀ q < f.bits, inUse m buffer q = true) ∨
      ∃ p, Lowest m buffer f.bits p ∧ r.1 = (f.first + p : Nat) ∧ SetsOne m r.2 buffer p ∧
        NumberRight f m r.2 buffer blksz (f.first + p)

/-! ## The loops -/

section Loops

variable {low high : Nat} {m : Memory} {isFull : Nat → Bool} {d turns ptr count : Nat}

theorem keeps_skipFull {wanted : Option (Nat × Nat) → Prop} (enough : d ≤ turns)
    (from_low : low ≤ ptr) (to_high : ptr + d ≤ high) (passed : ∀ j < d, m (ptr + j) = 255)
    (going : ∀ j < d, isFull (count + 8 * (j + 1)) = false) (small : count + 8 * d < 2 ^ 32) :
    (skipFull m isFull turns ptr count).Keeps low high wanted ↔
      (skipFull m isFull (turns - d) (ptr + d) (count + 8 * d)).Keeps low high wanted := by
  induction d generalizing turns ptr count with
  | zero => rfl
  | succ d ih =>
    obtain ⟨turns, rfl⟩ : ∃ k, turns = k + 1 := ⟨turns - 1, by omega⟩
    have here : m ptr = 255 := passed 0 (by omega)
    have more : isFull ((count + 8) % 2 ^ 32) = false := by
      rw [Nat.mod_eq_of_lt (by omega)]
      exact going 0 (by omega)
    have inside : low ≤ ptr ∧ ptr < high := ⟨from_low, by omega⟩
    rw [skipFull, keeps_bind, keeps_readByte, and_iff_right inside, if_pos here, more,
      if_neg Bool.false_ne_true, Nat.mod_eq_of_lt (by omega), ih (by omega) (by omega) (by omega)]
    · have place : ptr + 1 + d = ptr + (d + 1) := by omega
      have number : count + 8 + 8 * d = count + 8 * (d + 1) := by omega
      rw [place, number, Nat.add_sub_add_right]
    · intro j below
      have next := passed (j + 1) (by omega)
      rwa [Nat.add_right_comm, Nat.add_assoc]
    · intro j below
      have next := going (j + 1) (by omega)
      have number : count + 8 + 8 * (j + 1) = count + 8 * (j + 1 + 1) := by omega
      rwa [number]
    · omega

theorem keeps_takeBit {input : UInt8} {b left i : Nat} {wanted : (Int × Memory) ⊕ Nat → Prop}
    (eight : left + i = 8) (small : b < 8) (reached : i ≤ b) (clear : bit input b = false)
    (below : ∀ j < b, bit input j = true) :
    (takeBit m ptr input left i count).Keeps low high wanted ↔ (low ≤ ptr ∧ ptr < high) ∧
      wanted (.inl ((count + (b - i) : Nat), m.store ptr [input ||| mask b])) := by
  induction left generalizing i count with
  | zero => omega
  | succ left ih =>
    rw [takeBit]
    rcases Nat.eq_or_lt_of_le reached with rfl | later
    · have found : ¬(input &&& mask i ≠ 0) := not_not.mpr ((and_mask_eq_zero_iff small).mpr clear)
      rw [if_neg found, keeps_bind, keeps_writeBytes, List.length_singleton, within_byte,
        keeps_pure, Nat.sub_self, Nat.add_zero]
    · have set : input &&& mask i ≠ 0 := by
        rw [Ne, and_mask_eq_zero_iff (by omega), below i later]
        exact Bool.noConfusion
      have number : count + 1 + (b - (i + 1)) = count + (b - i) := by omega
      rw [if_pos set, ih (by omega) (by omega), number]

end Loops

/-! ## The search -/

section Search

variable {m : Memory} {isFull : Nat → Bool} {blksz buffer first f b : Nat}
  {wanted : Int × Memory → Prop}

/-- The first byte that is not full, with its lowest clear bit. -/
structure FirstFree (m : Memory) (buffer f b : Nat) : Prop where
  passed : ∀ j < f, m (buffer + j) = 255
  small : b < 8
  clear : bit (m (buffer + f)) b = false
  below : ∀ j < b, bit (m (buffer + f)) j = true

theorem FirstFree.ne_full (free : FirstFree m buffer f b) : m (buffer + f) ≠ 255 := by
  intro full
  have set := bit_full free.small
  rw [← full, free.clear] at set
  cases set

theorem keeps_getNew_found (free : FirstFree m buffer f b) (inside : f < blksz)
    (bound : blksz ≤ 2 ^ 16) (one : first ≤ 1)
    (going : ∀ j < f, isFull (first + 8 * (j + 1)) = false) :
    (getNew m blksz first isFull buffer).Keeps buffer (buffer + blksz) wanted ↔
      wanted ((first + (8 * f + b) : Nat),
        m.store (buffer + f) [m (buffer + f) ||| mask b]) := by
  obtain ⟨turns, fuel⟩ : ∃ turns, 2 ^ 32 - f = turns + 1 := ⟨2 ^ 32 - f - 1, by omega⟩
  obtain ⟨left, rfl⟩ : ∃ left, blksz = left + 1 := ⟨blksz - 1, by omega⟩
  have here : buffer ≤ buffer + f ∧ buffer + f < buffer + (left + 1) := by omega
  have number : first + 8 * f + (b - 0) = first + (8 * f + b) := by omega
  rw [getNew, keeps_bind, keeps_skipFull (by omega) (le_refl buffer) (by omega) free.passed going
    (by omega), fuel, skipFull, keeps_bind, keeps_readByte, and_iff_right here,
    if_neg free.ne_full, keeps_pure]
  dsimp only
  rw [takeByte, keeps_bind, keeps_readByte, and_iff_right here, keeps_bind,
    keeps_takeBit (Nat.add_zero 8) free.small b.zero_le free.clear free.below, and_iff_right here,
    keeps_pure, number]

theorem keeps_getNew_none (passed : ∀ j < f + 1, m (buffer + j) = 255) (inside : f < blksz)
    (bound : blksz ≤ 2 ^ 16) (one : first ≤ 1)
    (going : ∀ j < f, isFull (first + 8 * (j + 1)) = false)
    (stops : isFull (first + 8 * (f + 1)) = true) :
    (getNew m blksz first isFull buffer).Keeps buffer (buffer + blksz) wanted ↔
      wanted (-1, m) := by
  obtain ⟨turns, fuel⟩ : ∃ turns, 2 ^ 32 - f = turns + 1 := ⟨2 ^ 32 - f - 1, by omega⟩
  have here : buffer ≤ buffer + f ∧ buffer + f < buffer + blksz := by omega
  have number : (first + 8 * f + 8) % 2 ^ 32 = first + 8 * (f + 1) := by omega
  rw [getNew, keeps_bind, keeps_skipFull (by omega) (le_refl buffer) (by omega)
    (fun j below => passed j (by omega)) going (by omega), fuel, skipFull, keeps_bind,
    keeps_readByte, and_iff_right here, if_pos (passed f (by omega)), number, stops, if_pos rfl,
    keeps_pure, keeps_pure]

theorem not_keeps_getNew (passed : ∀ j < blksz, m (buffer + j) = 255) (bound : blksz ≤ 2 ^ 16)
    (one : first ≤ 1) (going : ∀ j < blksz, isFull (first + 8 * (j + 1)) = false) :
    ¬(getNew m blksz first isFull buffer).Keeps buffer (buffer + blksz) wanted := by
  obtain ⟨turns, fuel⟩ : ∃ turns, 2 ^ 32 - blksz = turns + 1 := ⟨2 ^ 32 - blksz - 1, by omega⟩
  rw [getNew, keeps_bind, keeps_skipFull (by omega) (le_refl buffer) (le_refl _) passed going
    (by omega), fuel, skipFull, keeps_bind, keeps_readByte]
  rintro ⟨⟨-, less⟩, -⟩
  exact absurd less (lt_irrefl _)

end Search

/-! ## Bits -/

section Bits

variable {m : Memory} {buffer f b : Nat}

theorem inUse_of_full {q : Nat} (full : m (buffer + q / 8) = 255) : inUse m buffer q = true := by
  rw [inUse, full]
  exact bit_full (Nat.mod_lt q (by decide))

theorem full_or_firstFree (m : Memory) (buffer bytes : Nat) :
    (∀ j < bytes, m (buffer + j) = 255) ∨ ∃ f < bytes, ∃ b, FirstFree m buffer f b := by
  by_cases some : ∃ f, f < bytes ∧ m (buffer + f) ≠ 255
  · obtain ⟨inside, other⟩ := Nat.find_spec some
    obtain ⟨b, small, clear, below⟩ := exists_lowest other
    refine Or.inr ⟨Nat.find some, inside, b, fun j earlier => ?_, small, clear, below⟩
    by_contra different
    exact Nat.find_min some earlier ⟨by omega, different⟩
  · refine Or.inl fun j inside => ?_
    by_contra different
    exact some ⟨j, inside, different⟩

theorem lowest_of_firstFree (free : FirstFree m buffer f b) {bits : Nat}
    (inside : 8 * f + b < bits) : Lowest m buffer bits (8 * f + b) := by
  have small := free.small
  have byte : (8 * f + b) / 8 = f := by omega
  have number : (8 * f + b) % 8 = b := by omega
  refine ⟨inside, ?_, fun q earlier => ?_⟩
  · rw [inUse, byte, number]
    exact free.clear
  · rcases Nat.lt_or_ge (q / 8) f with less | same
    · exact inUse_of_full (free.passed (q / 8) less)
    · have here : q / 8 = f := by omega
      rw [inUse, here]
      exact free.below (q % 8) (by omega)

theorem setsOne_store (small : b < 8) :
    SetsOne m (m.store (buffer + f) [m (buffer + f) ||| mask b]) buffer (8 * f + b) := by
  constructor
  · intro q
    by_cases here : q / 8 = f
    · have inside : buffer + f ≤ buffer + f ∧
          buffer + f < buffer + f + [m (buffer + f) ||| mask b].length := by simp
      rw [inUse, inUse, here, Memory.store_inside _ _ _ _ inside]
      have same : (b = q % 8) = (8 * f + b = q) := propext (by omega)
      simp only [Nat.sub_self, List.getD_cons_zero, bit_or_mask small, same]
    · have outside : buffer + q / 8 < buffer + f ∨
          buffer + f + [m (buffer + f) ||| mask b].length ≤ buffer + q / 8 := by
        rw [List.length_singleton]
        omega
      have other : ¬8 * f + b = q := by omega
      rw [inUse, inUse, Memory.store_outside _ _ _ _ outside, decide_eq_false other, Bool.or_false]
  · intro a front
    exact Memory.store_outside _ _ _ _ (Or.inl (by omega))

end Bits

/-! ## Numbers in groups -/

section Numbers

variable {fs : FileSystem} {m : Memory} {buffer f b blksz : Nat}

theorem placeFromOne_eq (p : Nat) :
    placeFromOne ((1 + p) / 8 : Nat) ((1 + p) % 8 : Nat) =
      (((p / 8 : Nat) : Int), mask (p % 8)) := by
  rw [placeFromOne]
  by_cases last : (1 + p) % 8 = 0
  · have zero : (((1 + p) % 8 : Nat) : Int) = 0 := by omega
    have byte : (((1 + p) / 8 : Nat) : Int) - 1 = (p / 8 : Nat) := by omega
    have seven : 7 = p % 8 := by omega
    rw [if_pos zero, byte, ← seven]
  · have other : ¬(((1 + p) % 8 : Nat) : Int) = 0 := by omega
    have byte : (1 + p) / 8 = p / 8 := by omega
    have number : ((((1 + p) % 8 : Nat) : Int) - 1).toNat = p % 8 := by omega
    rw [if_neg other, byte, number]

/-- The place of the number of a block. -/
theorem blockPlace_eq (index p : Nat)
    (fits : index * (8 * fs.blksz) + (firstBlock fs + p) < 2 ^ 31) :
    blockPlace fs (index * (8 * fs.blksz) + (firstBlock fs + p) : Nat) index =
      (((p / 8 : Nat) : Int), mask (p % 8)) := by
  have group : index * (8 * fs.blksz) = 8 * (index * fs.blksz) := by ring
  have one : firstBlock fs ≤ 1 := by
    rw [firstBlock]
    split <;> decide
  rw [group] at fits ⊢
  have quotient : ((8 * (index * fs.blksz) + (firstBlock fs + p) : Nat) : Int).tdiv 8 =
      ((index * fs.blksz + (firstBlock fs + p) / 8 : Nat) : Int) := by
    have whole : (8 * (index * fs.blksz) + (firstBlock fs + p)) / 8 =
        index * fs.blksz + (firstBlock fs + p) / 8 := by omega
    exact congrArg Nat.cast whole
  have remainder : ((8 * (index * fs.blksz) + (firstBlock fs + p) : Nat) : Int).tmod 8 =
      ((firstBlock fs + p) % 8 : Nat) := by
    have rest : (8 * (index * fs.blksz) + (firstBlock fs + p)) % 8 = (firstBlock fs + p) % 8 := by
      omega
    exact congrArg Nat.cast rest
  have base : toInt ((index : Int) * fs.blksz) = (index * fs.blksz : Nat) := by
    rw [← Nat.cast_mul]
    exact toInt_of_lt (by omega) (by omega)
  have byte : toInt (((index * fs.blksz + (firstBlock fs + p) / 8 : Nat) : Int) -
      (index * fs.blksz : Nat)) = ((firstBlock fs + p) / 8 : Nat) := by
    rw [toInt_of_lt (by omega) (by omega)]
    omega
  rw [blockPlace, quotient, remainder, base, byte, firstBlock]
  by_cases size : fs.blksz ≠ 1024
  · rw [if_pos size, if_pos size, Nat.zero_add, Int.toNat_natCast]
  · rw [if_neg size, if_neg size]
    exact placeFromOne_eq p

theorem inodePlace_eq (index p : Nat) (small : p < 2 ^ 19) :
    inodePlace fs (index * fs.inodesPerGroup + (1 + p) : Nat) index =
      (((p / 8 : Nat) : Int), mask (p % 8)) := by
  have inGroup : toInt (((index * fs.inodesPerGroup + (1 + p) : Nat) : Int) -
      (index * fs.inodesPerGroup : Nat)) = (1 + p : Nat) := by
    rw [toInt_of_lt (by omega) (by omega)]
    omega
  rw [inodePlace, inGroup]
  exact placeFromOne_eq p

abbrev taken (m : Memory) (buffer f b : Nat) : Memory :=
  m.store (buffer + f) [m (buffer + f) ||| mask b]

theorem taken_apply : taken m buffer f b (buffer + f) = m (buffer + f) ||| mask b := by
  have inside : buffer + f ≤ buffer + f ∧
      buffer + f < buffer + f + [m (buffer + f) ||| mask b].length := by simp
  rw [taken, Memory.store_inside _ _ _ _ inside, Nat.sub_self]
  rfl

theorem or_mask_taken {byte : UInt8} (small : b < 8) : (byte ||| mask b) &&& mask b ≠ 0 := by
  rw [Ne, and_mask_eq_zero_iff small, bit_or_mask small, decide_eq_true rfl, Bool.or_true]
  exact Bool.noConfusion

theorem keeps_setAt_taken (small : b < 8) (inside : f < blksz) :
    (setAt (taken m buffer f b) buffer ((f : Int), mask b)).Keeps buffer (buffer + blksz)
      fun r => r = (-1, taken m buffer f b) := by
  have ptr : ((buffer : Int) + (f : Nat)).toNat = buffer + f := by omega
  have span : buffer ≤ buffer + f ∧ buffer + f < buffer + blksz := by omega
  rw [setAt]
  dsimp only
  rw [ptr, keeps_bind, keeps_readByte, taken_apply, if_pos (or_mask_taken small), keeps_pure]
  exact ⟨span, rfl⟩

theorem keeps_resetAt_taken (small : b < 8) (inside : f < blksz)
    (clear : bit (m (buffer + f)) b = false) :
    (resetAt (taken m buffer f b) buffer ((f : Int), mask b)).Keeps buffer (buffer + blksz)
      fun r => r = m := by
  have ptr : ((buffer : Int) + (f : Nat)).toNat = buffer + f := by omega
  have byte := or_and_not ((and_mask_eq_zero_iff small).mpr clear)
  have span : buffer ≤ buffer + f ∧ buffer + f < buffer + blksz := by omega
  rw [resetAt]
  dsimp only
  rw [ptr, keeps_bind, keeps_readByte, taken_apply, if_pos (or_mask_taken small), keeps_writeBytes,
    byte, List.length_singleton, within_byte]
  refine ⟨span, span, ?_⟩
  funext a
  by_cases here : a = buffer + f
  · have range : buffer + f ≤ buffer + f ∧ buffer + f < buffer + f + [m (buffer + f)].length := by
      simp
    rw [here, Memory.store_inside _ _ _ _ range, Nat.sub_self]
    rfl
  · have outside : a < buffer + f ∨ buffer + f + [m (buffer + f)].length ≤ a := by
      rw [List.length_singleton]
      omega
    have before : a < buffer + f ∨ buffer + f + [m (buffer + f) ||| mask b].length ≤ a := by
      rw [List.length_singleton]
      omega
    rw [Memory.store_outside _ _ _ _ outside, taken, Memory.store_outside _ _ _ _ before]

end Numbers

/-! ## All bitmaps -/

section Bitmaps

variable {fs : FileSystem} {m : Memory} {buffer : Nat}

theorem FileSystem.blksz_bounds (fs : FileSystem) : 1024 ≤ fs.blksz ∧ fs.blksz ≤ 2 ^ 16 := by
  obtain ⟨k, small, size⟩ := fs.blockSize
  rw [size]
  have low : 2 ^ 0 ≤ 2 ^ k := Nat.pow_le_pow_right (by decide) k.zero_le
  have high : 2 ^ k ≤ 2 ^ 6 := Nat.pow_le_pow_right (by decide) small
  omega

theorem bitmapRight_of_found {fn : Functions} {f b blksz : Nat} (free : FirstFree m buffer f b)
    (inside : 8 * f + b < fn.bits)
    (searches : ∀ wanted, (fn.search m buffer).Keeps buffer (buffer + blksz) wanted ↔
      wanted ((fn.first + (8 * f + b) : Nat), taken m buffer f b))
    (numbers : NumberRight fn m (taken m buffer f b) buffer blksz (fn.first + (8 * f + b))) :
    BitmapRight fn m buffer blksz := by
  rw [BitmapRight, searches]
  exact Or.inr ⟨8 * f + b, lowest_of_firstFree free inside, rfl, setsOne_store free.small, numbers⟩

theorem bitmapRight_of_full {fn : Functions} {blksz : Nat}
    (full : ∀ q < fn.bits, m (buffer + q / 8) = 255)
    (searches : ∀ wanted, (fn.search m buffer).Keeps buffer (buffer + blksz) wanted ↔
      wanted (-1, m)) : BitmapRight fn m buffer blksz := by
  rw [BitmapRight, searches]
  exact Or.inl ⟨rfl, fun q inside => inUse_of_full (full q inside)⟩

theorem blocks_number {f b : Nat} (free : FirstFree m buffer f b) (inside : f < fs.blksz) :
    NumberRight (blocks fs) m (taken m buffer f b) buffer fs.blksz
      (firstBlock fs + (8 * f + b)) := by
  have small := free.small
  have byte : (8 * f + b) / 8 = f := by omega
  have number : (8 * f + b) % 8 = b := by omega
  intro index fits
  have place := blockPlace_eq index (8 * f + b) fits
  rw [byte, number] at place
  dsimp only [blocks, setBlockBmap, resetBlockBmap]
  rw [place]
  exact ⟨keeps_setAt_taken small inside, keeps_resetAt_taken small inside free.clear⟩

theorem inodes_number {f b : Nat} (free : FirstFree m buffer f b) (inside : f < fs.blksz) :
    NumberRight (inodes fs) m (taken m buffer f b) buffer fs.blksz (1 + (8 * f + b)) := by
  have small := free.small
  have size := fs.blksz_bounds
  have byte : (8 * f + b) / 8 = f := by omega
  have number : (8 * f + b) % 8 = b := by omega
  intro index _
  have place := @inodePlace_eq fs index (8 * f + b) (by omega)
  rw [byte, number] at place
  dsimp only [inodes, setInodeBmap, resetInodeBmap]
  rw [place]
  exact ⟨keeps_setAt_taken small inside, keeps_resetAt_taken small inside free.clear⟩

/-- The bitmap of the blocks: in blocks of 1 KiB one has to be free. -/
theorem blocks_right_iff (fs : FileSystem) (m : Memory) (buffer : Nat) :
    BitmapRight (blocks fs) m buffer fs.blksz ↔
      (fs.blksz = 1024 → ∃ q < 8 * fs.blksz, inUse m buffer q = false) := by
  have size := fs.blksz_bounds
  have one : firstBlock fs ≤ 1 := by
    rw [firstBlock]
    split <;> decide
  rcases full_or_firstFree m buffer fs.blksz with full | ⟨f, inside, b, free⟩
  · have set (q : Nat) (below : q < 8 * fs.blksz) : m (buffer + q / 8) = 255 :=
      full (q / 8) (by omega)
    by_cases kib : fs.blksz = 1024
    · have first : firstBlock fs = 1 := if_neg (not_not.mpr kib)
      refine iff_of_false (fun right => ?_) fun some => ?_
      · refine not_keeps_getNew full size.2 one (fun j _ => ?_) right
        rw [first]
        exact beq_eq_false_iff_ne.mpr (by omega)
      · obtain ⟨q, below, clear⟩ := some kib
        exact Bool.noConfusion (clear.symm.trans (inUse_of_full (set q below)))
    · have first : firstBlock fs = 0 := if_pos kib
      obtain ⟨f, last⟩ : ∃ f, fs.blksz = f + 1 := ⟨fs.blksz - 1, by omega⟩
      refine iff_of_true (bitmapRight_of_full set fun wanted => ?_) fun same => absurd same kib
      refine keeps_getNew_none (f := f) (fun j below => full j (by omega)) (by omega) size.2 one
        (fun j below => ?_) ?_
      · rw [first]
        exact beq_eq_false_iff_ne.mpr (by omega)
      · rw [first]
        exact beq_iff_eq.mpr (by omega)
  · have small := free.small
    have bits : 8 * f + b < 8 * fs.blksz := by omega
    refine iff_of_true (bitmapRight_of_found free bits (fun wanted => ?_)
      (blocks_number free inside)) fun _ => ⟨8 * f + b, bits, ?_⟩
    · refine keeps_getNew_found free inside size.2 one fun j below => ?_
      exact beq_eq_false_iff_ne.mpr (by omega)
    · exact (lowest_of_firstFree free bits).clear

/-- The bitmap of the inodes: there have to be some, or the first byte is full. -/
theorem inodes_right_iff (fs : FileSystem) (m : Memory) (buffer : Nat) :
    BitmapRight (inodes fs) m buffer fs.blksz ↔ (fs.inodesPerGroup = 0 → m buffer = 255) := by
  have size := fs.blksz_bounds
  have fit := fs.inodesFit
  obtain ⟨g, bytes⟩ := fs.wholeBytes
  by_cases none : g = 0
  · rw [none, Nat.mul_zero] at bytes
    rw [forall_prop_of_true bytes]
    rcases full_or_firstFree m buffer 1 with full | ⟨f, inside, b, free⟩
    · have first : m buffer = 255 := full 0 Nat.one_pos
      refine iff_of_true (bitmapRight_of_full (fun q below => ?_) fun wanted => ?_) first
      · change q < fs.inodesPerGroup at below
        omega
      · refine keeps_getNew_none (f := 0) full (by omega) size.2 le_rfl
          (fun j below => absurd below j.not_lt_zero) ?_
        exact decide_eq_true (by omega)
    · obtain rfl : f = 0 := by omega
      refine iff_of_false (fun right => ?_) free.ne_full
      have found := (keeps_getNew_found free (by omega : 0 < fs.blksz) size.2 le_rfl
        (fun j below => absurd below j.not_lt_zero)).mp right
      rcases found with ⟨full, -⟩ | ⟨p, lowest, -⟩
      · have number := congrArg Prod.fst full
        dsimp only at number
        omega
      · have below : p < fs.inodesPerGroup := lowest.inside
        omega
  · refine iff_of_true ?_ fun zero => absurd zero (by omega)
    rcases full_or_firstFree m buffer g with full | ⟨f, inside, b, free⟩
    · refine bitmapRight_of_full (fun q below => ?_) fun wanted => ?_
      · change q < fs.inodesPerGroup at below
        exact full (q / 8) (by omega)
      · obtain ⟨f, last⟩ : ∃ f, g = f + 1 := ⟨g - 1, by omega⟩
        refine keeps_getNew_none (f := f) (fun j below => full j (by omega)) (by omega) size.2
          le_rfl (fun j below => ?_) ?_
        · exact decide_eq_false (by omega)
        · exact decide_eq_true (by omega)
    · have small := free.small
      have bits : 8 * f + b < fs.inodesPerGroup := by omega
      have there : f < fs.blksz := by omega
      refine bitmapRight_of_found free bits (fun wanted => ?_) (inodes_number free there)
      refine keeps_getNew_found free there size.2 le_rfl fun j below => ?_
      exact decide_eq_false (by omega)

end Bitmaps

/-- Blocks of 1 KiB have a free one, and there are inodes, or the first byte of their bitmap is
full. -/
def BitmapsFit (fs : FileSystem) (blockBitmap inodeBitmap : Memory) (buffer : Nat) : Prop :=
  (fs.blksz = 1024 → ∃ q < 8 * fs.blksz, inUse blockBitmap buffer q = false) ∧
    (fs.inodesPerGroup = 0 → inodeBitmap buffer = 255)

/-- The functions do what is wanted exactly for these bitmaps. -/
theorem bitmaps_right_iff (fs : FileSystem) (blockBitmap inodeBitmap : Memory) (buffer : Nat) :
    BitmapRight (blocks fs) blockBitmap buffer fs.blksz ∧
        BitmapRight (inodes fs) inodeBitmap buffer fs.blksz ↔
      BitmapsFit fs blockBitmap inodeBitmap buffer :=
  and_congr (blocks_right_iff fs blockBitmap buffer) (inodes_right_iff fs inodeBitmap buffer)

/-- A file system with blocks of 1 KiB. -/
def smallBlocks : FileSystem where
  blksz := 1024
  inodesPerGroup := 1024
  blockSize := ⟨0, by decide, rfl⟩
  wholeBytes := ⟨128, rfl⟩
  inodesFit := by decide

/-- A bitmap without a free block, with a zero behind it. -/
def fullBitmap : Memory := fun a => if a < 1024 then 255 else 0

/-- The search reads behind the bitmap. -/
theorem fullBitmap_not_right : ¬BitmapRight (blocks smallBlocks) fullBitmap 0 1024 := by
  intro right
  refine not_keeps_getNew (fun j below => ?_) (by decide) le_rfl (fun j _ => ?_) right
  · exact if_pos (by omega)
  · have other : firstBlock smallBlocks + 8 * (j + 1) ≠ 1024 * 8 := by
      change 1 + 8 * (j + 1) ≠ 1024 * 8
      omega
    exact beq_eq_false_iff_ne.mpr other

end HrppBoot.Ext4.Bitmap
