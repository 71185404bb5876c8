import HrppBoot.Ext4.Dev

/-!
# Reading a file

`ext4fs_read_file` goes through the blocks of a file and puts off reading them: as long as a block
follows the one before on the device, it is read together with it. Holes are filled with zeros. What
`read_allocated_block` returns for a block of the file is a parameter, negative when it fails.
-/

namespace HrppBoot.Ext4

open ByteMemory

/-! ## The function -/

structure File where
  /-- `LOG2_BLOCK_SIZE` of its file system. -/
  log2block : Nat
  size : Nat
  /-- `read_allocated_block`. -/
  allocated : Int → Int

def File.blocksize (file : File) : Nat := 2 ^ file.log2block

/-- The variables `delayed_…`, for a read that is put off. -/
structure Delayed where
  /-- `previous_block_number` is not -1: there is such a read. -/
  pending : Bool
  start : Nat
  extent : Nat
  skipfirst : Nat
  next : Nat
  buf : Nat

def Delayed.none : Delayed := ⟨false, 0, 0, 0, 0, 0⟩

structure ReadLoop where
  state : ReadState
  delayed : Delayed
  buf : Nat

inductive Outcome where
  | undefined
  | error
  /-- `*actread`, and the memory. -/
  | read (count : Nat) (mem : Memory)

section Definition

variable (dev : BlockDev) (stale : Nat → UInt8) (file : File)

/-- `spill`: the read that was put off is made. -/
def spill (loop : ReadLoop) : Option ReadState :=
  devread dev stale loop.delayed.start (toInt loop.delayed.skipfirst) (toInt loop.delayed.extent)
    loop.delayed.buf loop.state

/-- The read that was put off is made, if there is one. -/
def settle (loop : ReadLoop) : Option ReadState :=
  if loop.delayed.pending then spill dev stale loop else some loop.state

/-- `skipfirst` and `blockend` of a block. -/
def blockSpan (pos len blockcnt i : Nat) : Int × Int :=
  let before := toInt (file.blocksize * toInt i)
  let blockend :=
    if i = toUnsigned (blockcnt - 1) then
      let blockend := toInt (len + pos - before)
      if blockend = 0 then (file.blocksize : Int) else blockend
    else file.blocksize
  if toInt i = (pos / file.blocksize : Nat) then
    let skipfirst := toInt (pos - before)
    (skipfirst, toInt (blockend - skipfirst))
  else (0, blockend)

/-- The first sector of a block, from what `read_allocated_block` returned. -/
def blockSector (i : Nat) : Nat :=
  toUnsigned (toUnsigned (file.allocated (toInt i)) * 2 ^ (file.log2block - dev.log2blksz))

def delay (blknr : Nat) (skipfirst blockend : Int) (buf : Nat) : Delayed where
  pending := toUnsigned (blknr + 1) != 0
  start := blknr
  extent := toUnsigned blockend
  skipfirst := toUnsigned skipfirst
  next := toUnsigned (blknr + blockend / dev.blksz)
  buf := buf

/-- A pass of the loop. `blknr < 0` is never true. -/
def readBlock (pos len blockcnt : Nat) (loop : ReadLoop) (i : Nat) : Option ReadLoop :=
  let blknr := blockSector dev file i
  let skipfirst := (blockSpan file pos len blockcnt i).1
  let blockend := (blockSpan file pos len blockcnt i).2
  let buf := loop.buf + toUnsigned (file.blocksize - skipfirst)
  if blknr ≠ 0 then
    if loop.delayed.pending then
      if loop.delayed.next = blknr then
        let delayed := { loop.delayed with
          extent := toUnsigned (loop.delayed.extent + blockend)
          next := toUnsigned (loop.delayed.next + blockend / dev.blksz) }
        some ⟨loop.state, delayed, buf⟩
      else do
        let state ← spill dev stale loop
        some ⟨state, delay dev blknr skipfirst blockend loop.buf, buf⟩
    else some ⟨loop.state, delay dev blknr skipfirst blockend loop.buf, buf⟩
  else do
    let state ← settle dev stale loop
    let state := { state with
      mem := state.mem.fill loop.buf (toUnsigned (file.blocksize - skipfirst)) 0 }
    some ⟨state, { loop.delayed with pending := false }, buf⟩

/-- The first block, and the one behind the last. -/
def blockRange (pos len : Nat) : Nat × Nat :=
  (toUnsigned (pos / file.blocksize : Nat),
    toUnsigned ((len + pos + file.blocksize - 1) / file.blocksize : Nat))

/-- `ext4fs_read_file`. A shift by less than nothing is not defined. -/
def readFile (pos len : Nat) (mem : Memory) : Outcome :=
  let len := if file.size < len then file.size else len
  let first := (blockRange file pos len).1
  let blockcnt := (blockRange file pos len).2
  if file.log2block < dev.log2blksz ∧ first < blockcnt then .undefined
  else
    let passes := (List.range' first (blockcnt - first)).foldlM
      (readBlock dev stale file pos len blockcnt) ⟨⟨mem, 0⟩, .none, 0⟩
    match passes.bind (settle dev stale) with
    | none => .error
    | some state => .read len state.mem

end Definition

/-! ## The content of a file -/

section Content

variable (dev : BlockDev) (file : File) (pos len : Nat)

def blockSectors : Nat := 2 ^ (file.log2block - dev.log2blksz)

/-- A byte of a file, block by block: zero in a hole, otherwise from the device. -/
def fileByte (offset : Nat) : UInt8 :=
  let block := file.allocated (offset / file.blocksize : Nat)
  if block = 0 then 0
  else dev.bytes (dev.start + block.toNat * blockSectors dev file) (offset % file.blocksize)

/-- The image: sectors have numbers of 32 bits, and a block of the file is a hole, on the device and
there once, or cannot be told, which `read_allocated_block` says in one of three ways. -/
structure WellFormed : Prop where
  blockLow : 10 ≤ file.log2block
  blockHigh : file.log2block ≤ 16
  sized : file.size < 2 ^ 32
  partition : dev.start + dev.size < 2 ^ 32
  mapped : ∀ i : Nat, i * file.blocksize < file.size → 0 < file.allocated i →
    ((file.allocated i).toNat + 1) * blockSectors dev file ≤ dev.size
  once : ∀ i j : Nat, i * file.blocksize < file.size → j * file.blocksize < file.size →
    0 < file.allocated i → file.allocated i = file.allocated j → i = j
  failure : ∀ i : Nat, i * file.blocksize < file.size → file.allocated i < 0 →
    file.allocated i = -1 ∨ file.allocated i = -12 ∨ file.allocated i = -22

/-- Bytes that are asked for, at most the size of the file. -/
def wanted : Nat := min len file.size

def Touched (i : Nat) : Prop :=
  pos / file.blocksize ≤ i ∧ i * file.blocksize < pos + wanted file len

/-- What is right: an error, or exactly the bytes of the file from the position on, their count, and
no other byte written. -/
def Right (mem : Memory) : Outcome → Prop
  | .undefined => False
  | .error => True
  | .read count after =>
    (∀ i, Touched file pos len i → 0 ≤ file.allocated i) ∧
      count = min (pos + len) file.size - pos ∧
        ∀ a, after a = if a < count then fileByte dev file (pos + a) else mem a

/-- Where a block starts in the buffer. -/
def bufAt (i : Nat) : Nat := i * file.blocksize - pos

/-- What is left out at the start of a block. -/
def skipAt (i : Nat) : Nat := pos - i * file.blocksize

/-- The number of blocks up to the end of the read. -/
def blockCount : Nat := (wanted file len + pos + file.blocksize - 1) / file.blocksize

/-- A block follows the blocks from `j` on, and the first of these is read from its start. -/
def Follows (j i : Nat) : Prop :=
  skipAt file pos j = 0 ∧ file.allocated i = file.allocated j + (i - j : Nat)

instance (j i : Nat) : Decidable (Follows file pos j i) := by
  unfold Follows
  infer_instance

/-- The runs of adjacent blocks in front of a block. A run has a first block and one behind it. -/
structure Plan where
  /-- The runs that are read before. -/
  done : List (Nat × Nat)
  /-- The first block of the run that may go on. -/
  first : Option Nat

/-- All runs, where none goes on with the block. -/
def Plan.runs (plan : Plan) (i : Nat) : List (Nat × Nat) :=
  plan.done ++ plan.first.toList.map fun j => (j, i)

def Plan.add (plan : Plan) (i : Nat) : Plan :=
  if file.allocated i = 0 then ⟨plan.runs i, none⟩
  else if plan.first.any fun j => Follows file pos j i then plan
  else ⟨plan.runs i, some i⟩

def planAt (i : Nat) : Plan :=
  (List.range' (pos / file.blocksize) (i - pos / file.blocksize)).foldl (Plan.add file pos)
    ⟨[], none⟩

/-- The first sector of a run. -/
def runSector (run : Nat × Nat) : Nat := (file.allocated run.1).toNat * blockSectors dev file

def runLength (run : Nat × Nat) : Nat :=
  min (bufAt file pos run.2) (wanted file len) - bufAt file pos run.1

def runRequests (run : Nat × Nat) : List Request :=
  requests dev (dev.start + runSector dev file run) (skipAt file pos run.1)
    (runLength file pos len run) (bufAt file pos run.1)

def allRequests (runs : List (Nat × Nat)) : List Request :=
  runs.flatMap (runRequests dev file pos len)

/-- No read of a run is refused, and the requests that are checked succeed. -/
structure Passes (runs : List (Nat × Nat)) : Prop where
  accepted : ∀ run ∈ runs,
    ¬Refused dev (runSector dev file run) (skipAt file pos run.1) (runLength file pos len run)
  checked : Succeed dev (fun request => request.checked) 0 (allRequests dev file pos len runs)

/-- A block that cannot be told is noticed: its number is turned into one of a sector far outside
the partition, and the first read is at least of a sector. -/
structure Noticed : Prop where
  block : ∃ i, Touched file pos len i ∧ file.allocated i < 0
  several : dev.log2blksz < file.log2block
  below : dev.size + 22 * blockSectors dev file < 2 ^ 32
  early : pos % file.blocksize + dev.blksz ≤ file.blocksize

/-- The blocks before some block can be told. -/
def KnownTo (i : Nat) : Prop := ∀ m, Touched file pos len m → m < i → 0 ≤ file.allocated m

def Known : Prop := ∀ i, Touched file pos len i → 0 ≤ file.allocated i

/-- The runs of the whole read. -/
def allRuns : List (Nat × Nat) :=
  (planAt file pos (blockCount file pos len)).runs (blockCount file pos len)

/-- A read is refused or a checked request fails, in front of a block or of the end, and no block
before that cannot be told. -/
def Breaks : Prop :=
  (∃ i ≤ blockCount file pos len, KnownTo file pos len i ∧
      ¬Passes dev file pos len (planAt file pos i).done) ∨
    (Known file pos len ∧ ¬Passes dev file pos len (allRuns file pos len))

/-- All blocks can be told, where the read ends in the middle of a block there is data, and the
requests that are not checked succeed. -/
structure Told : Prop where
  known : Known file pos len
  data : (pos + wanted file len) % file.blocksize ≠ 0 →
    file.allocated ((pos + wanted file len) / file.blocksize : Nat) ≠ 0
  unchecked : Succeed dev (fun request => !request.checked) 0
    (allRequests dev file pos len (allRuns file pos len))

/-- The bytes that are asked for are in the file, and so are the blocks that are looked up. -/
structure Within : Prop where
  count : wanted file len = min (pos + len) file.size - pos
  blocks : ∀ i, Touched file pos len i → i * file.blocksize < file.size

/-- When the code is right: no block is looked up; or the read is in the file, a sector is not
larger than a block, and blocks that fail are noticed, or an error comes first, or none fails. -/
def Readable : Prop :=
  (∀ i, ¬Touched file pos len i) ∨
    (Within file pos len ∧ dev.log2blksz ≤ file.log2block ∧
      (Noticed dev file pos len ∨ Breaks dev file pos len ∨ Told dev file pos len))

end Content

/-! ## Blocks of the read -/

section Blocks

variable {dev : BlockDev} {stale : Nat → UInt8} {file : File} {pos len i : Nat}

theorem blocksize_pos : 0 < file.blocksize := Nat.two_pow_pos _

theorem blockSectors_pos : 0 < blockSectors dev file := Nat.two_pow_pos _

theorem blocksize_eq (sectors : dev.log2blksz ≤ file.log2block) :
    file.blocksize = blockSectors dev file * dev.blksz := by
  unfold File.blocksize blockSectors BlockDev.blksz
  rw [← Nat.pow_add, Nat.sub_add_cancel sectors]

def endAt (file : File) (pos len i : Nat) : Nat :=
  min file.blocksize (pos + wanted file len - i * file.blocksize)

theorem lt_blockCount : i < blockCount file pos len ↔
    i * file.blocksize < pos + wanted file len := by
  have positive := @blocksize_pos file
  unfold blockCount
  rw [Nat.lt_iff_add_one_le, Nat.le_div_iff_mul_le positive, Nat.add_mul]
  omega

theorem first_block : pos / file.blocksize * file.blocksize ≤ pos ∧
    pos < (pos / file.blocksize + 1) * file.blocksize := by
  have positive := @blocksize_pos file
  have split := Nat.div_add_mod pos file.blocksize
  have less := Nat.mod_lt pos positive
  rw [Nat.mul_comm] at split
  rw [Nat.add_mul]
  omega

theorem behind_first (later : pos / file.blocksize < i) : pos < i * file.blocksize :=
  Nat.lt_of_lt_of_le first_block.2 (Nat.mul_le_mul_right _ later)

theorem bufAt_succ (touched : Touched file pos len i) :
    bufAt file pos i + (endAt file pos len i - skipAt file pos i) =
      min (bufAt file pos (i + 1)) (wanted file len) ∧
    bufAt file pos i + (file.blocksize - skipAt file pos i) = bufAt file pos (i + 1) ∧
    skipAt file pos i ≤ endAt file pos len i ∧ 0 < endAt file pos len i := by
  have positive := @blocksize_pos file
  obtain ⟨low, high⟩ := touched
  unfold bufAt endAt skipAt
  rw [Nat.add_mul]
  rcases Nat.eq_or_lt_of_le low with rfl | later
  · have := @first_block file pos
    rw [Nat.add_mul] at this
    omega
  · have := behind_first later
    omega

theorem skipAt_lt (first : pos / file.blocksize ≤ i) : skipAt file pos i < file.blocksize := by
  have start := @first_block file pos
  have order : (pos / file.blocksize + 1) * file.blocksize ≤ (i + 1) * file.blocksize :=
    Nat.mul_le_mul_right _ (Nat.succ_le_succ first)
  have positive := @blocksize_pos file
  rw [Nat.add_mul i] at order
  unfold skipAt
  omega

theorem skipAt_eq_zero (later : pos / file.blocksize < i) : skipAt file pos i = 0 := by
  have := behind_first later
  unfold skipAt
  omega

/-- A file that is well formed, and a read in it. -/
structure Fit (dev : BlockDev) (file : File) (pos len : Nat) : Prop where
  form : WellFormed dev file
  inside : Within file pos len

theorem touched_small (fit : Fit dev file pos len)
    (touched : Touched file pos len i) : i * file.blocksize < 2 ^ 32 ∧ i < 2 ^ 31 := by
  have large : 2 ^ 10 ≤ file.blocksize := Nat.pow_le_pow_right (by decide) fit.form.blockLow
  have below := Nat.lt_trans (fit.inside.blocks i touched) fit.form.sized
  refine ⟨below, ?_⟩
  have := Nat.mul_le_mul_left i large
  omega

theorem blockCount_small (fit : Fit dev file pos len)
    (touched : Touched file pos len i) : blockCount file pos len < 2 ^ 31 := by
  have ends := lt_blockCount.mpr touched.2
  have last : blockCount file pos len - 1 < blockCount file pos len := by omega
  have small := (touched_small fit (i := blockCount file pos len - 1)
    ⟨Nat.le_trans touched.1 (by omega), lt_blockCount.mp last⟩).1
  have large : 2 ^ 10 ≤ file.blocksize := Nat.pow_le_pow_right (by decide) fit.form.blockLow
  have := Nat.mul_le_mul_left (blockCount file pos len - 1) large
  omega

theorem toInt_from_block {x : Nat} (small : i < 2 ^ 31) (low : i * file.blocksize ≤ x)
    (high : x - i * file.blocksize < 2 ^ 31) :
    toInt (x - toInt (file.blocksize * toInt i)) = (x - i * file.blocksize : Nat) := by
  have cast : (x : Int) - file.blocksize * i = (x - i * file.blocksize : Nat) := by
    rw [Nat.cast_sub low, Nat.cast_mul, Int.mul_comm]
  rw [toInt_of_lt (x := i) (by omega) (by omega), toInt_sub_toInt, cast,
    toInt_of_lt (by omega) (by omega)]

/-- `skipfirst` and `blockend`. -/
theorem blockSpan_eq (fit : Fit dev file pos len)
    (touched : Touched file pos len i) :
    blockSpan file pos (wanted file len) (blockCount file pos len) i =
      ((skipAt file pos i : Int), ((endAt file pos len i - skipAt file pos i : Nat) : Int)) := by
  obtain ⟨-, small⟩ := touched_small fit touched
  have positive := @blocksize_pos file
  have limit : file.blocksize ≤ 2 ^ 16 := Nat.pow_le_pow_right (by decide) fit.form.blockHigh
  have low := touched.1
  have high := touched.2
  have inRange : i < blockCount file pos len := lt_blockCount.mpr high
  have count := blockCount_small fit touched
  have final : toUnsigned ((blockCount file pos len : Int) - 1) = blockCount file pos len - 1 := by
    have cast : (blockCount file pos len : Int) - 1 = (blockCount file pos len - 1 : Nat) := by omega
    rw [cast, toUnsigned_natCast (by omega)]
  have isLast : i = blockCount file pos len - 1 ↔
      pos + wanted file len ≤ (i + 1) * file.blocksize := by
    have next := @lt_blockCount file pos len (i + 1)
    omega
  have blockend : (if i = toUnsigned ((blockCount file pos len : Int) - 1) then
        if toInt ((wanted file len : Int) + pos - toInt (file.blocksize * toInt i)) = 0 then
          (file.blocksize : Int)
        else toInt ((wanted file len : Int) + pos - toInt (file.blocksize * toInt i))
      else (file.blocksize : Int)) = (endAt file pos len i : Nat) := by
    rw [final]
    unfold endAt
    split
    case isTrue last =>
      have close := isLast.mp last
      rw [Nat.add_mul] at close
      have value := @toInt_from_block file i (pos + wanted file len) small (by omega) (by omega)
      rw [Nat.add_comm, Nat.cast_add] at value
      rw [value, if_neg (by omega)]
      omega
    case isFalse other =>
      have far := mt isLast.mpr other
      rw [Nat.add_mul] at far
      omega
  unfold blockSpan
  simp only [blockend]
  have number : toInt (i : Int) = (i : Int) := toInt_of_lt (by omega) (by omega)
  have fits := (bufAt_succ touched).2.2.1
  have bounded : endAt file pos len i ≤ file.blocksize := Nat.min_le_left _ _
  split
  case isTrue first =>
    rw [number] at first
    have same : i = pos / file.blocksize := by exact_mod_cast first
    have start := @first_block file pos
    rw [Nat.add_mul, ← same] at start
    rw [toInt_from_block small start.1 (by omega)]
    have skip : pos - i * file.blocksize = skipAt file pos i := rfl
    rw [skip, ← Nat.cast_sub fits, toInt_of_lt (by omega) (by omega)]
  case isFalse later =>
    rw [number] at later
    have other : i ≠ pos / file.blocksize := by exact_mod_cast later
    have behind := behind_first (Nat.lt_of_le_of_ne low (Ne.symm other))
    have none : skipAt file pos i = 0 := by
      unfold skipAt
      omega
    rw [none, Nat.sub_zero]
    rfl

theorem blockSector_hole (small : i < 2 ^ 31) (hole : file.allocated i = 0) :
    blockSector dev file i = 0 := by
  unfold blockSector
  rw [toInt_of_lt (by omega) (by omega), hole]
  simp [toUnsigned]

theorem blockSector_mapped (small : i < 2 ^ 31) (known : 0 < file.allocated i)
    (fits : ((file.allocated i).toNat + 1) * blockSectors dev file < 2 ^ 32) :
    blockSector dev file i = (file.allocated i).toNat * blockSectors dev file ∧
      0 < (file.allocated i).toNat * blockSectors dev file ∧
      (file.allocated i).toNat * blockSectors dev file + blockSectors dev file < 2 ^ 32 := by
  have positive := @blockSectors_pos dev file
  obtain ⟨block, number⟩ : ∃ block : Nat, file.allocated i = block :=
    ⟨_, (Int.toNat_of_nonneg (Int.le_of_lt known)).symm⟩
  rw [number] at known fits ⊢
  rw [Int.toNat_natCast] at fits ⊢
  rw [Nat.add_mul, Nat.one_mul] at fits
  have larger : block ≤ block * blockSectors dev file := Nat.le_mul_of_pos_right _ positive
  have more : 0 < block := by omega
  refine ⟨?_, Nat.mul_pos more positive, fits⟩
  unfold blockSector
  rw [toInt_of_lt (x := i) (by omega) (by omega), number, toUnsigned_natCast (by omega)]
  have whole : ((block : Int) * 2 ^ (file.log2block - dev.log2blksz)) =
      (block * blockSectors dev file : Nat) := by
    unfold blockSectors
    push_cast
    rfl
  rw [whole, toUnsigned_natCast (by omega)]

theorem blockSector_failed {code : Nat} (small : i < 2 ^ 31) (failed : file.allocated i = -code)
    (some : 0 < code) (fits : code * blockSectors dev file < 2 ^ 32) :
    blockSector dev file i = 2 ^ 32 - code * blockSectors dev file := by
  have positive := @blockSectors_pos dev file
  have larger : code ≤ code * blockSectors dev file := Nat.le_mul_of_pos_right _ positive
  have unsigned : toUnsigned (-code) = 2 ^ 32 - code := by
    unfold toUnsigned
    omega
  unfold blockSector
  rw [toInt_of_lt (x := i) (by omega) (by omega), failed, unsigned]
  have whole : ((2 ^ 32 - code : Nat) : Int) * 2 ^ (file.log2block - dev.log2blksz) =
      2 ^ 32 * blockSectors dev file - (code * blockSectors dev file : Nat) := by
    unfold blockSectors
    rw [Nat.cast_sub (by omega)]
    push_cast
    ring
  rw [whole]
  unfold toUnsigned
  omega

end Blocks

/-! ## Reads that were put off -/

section Runs

variable {dev : BlockDev} {stale : Nat → UInt8} {file : File} {pos len i j : Nat} {base : Memory}

/-- The buffer is right up to a place, and nothing is written behind its end. -/
structure Filled (dev : BlockDev) (file : File) (pos len : Nat) (base : Memory) (place : Nat)
    (mem : Memory) : Prop where
  right : ∀ a < place, mem a = fileByte dev file (pos + a)
  beyond : ∀ a, wanted file len ≤ a → mem a = base a

/-- The read of the blocks from `j` on, before `i`, was put off. -/
structure Run (dev : BlockDev) (file : File) (pos len j i : Nat) (d : Delayed) : Prop where
  first : pos / file.blocksize ≤ j
  nonempty : j < i
  last : (i - 1) * file.blocksize < pos + wanted file len
  pending : d.pending = true
  start : d.start = (file.allocated j).toNat * blockSectors dev file
  buf : d.buf = bufAt file pos j
  skipfirst : d.skipfirst = skipAt file pos j
  extent : d.extent = min (bufAt file pos i) (wanted file len) - bufAt file pos j
  adjacent : ∀ m, j ≤ m → m < i →
    0 < file.allocated m ∧ file.allocated m = file.allocated j + (m - j : Nat)
  alone : skipAt file pos j ≠ 0 → i = j + 1
  next : i * file.blocksize < pos + wanted file len →
    (skipAt file pos j = 0 →
      d.next = ((file.allocated j).toNat + (i - j)) * blockSectors dev file) ∧
    (skipAt file pos j ≠ 0 → (file.allocated j).toNat * blockSectors dev file ≤ d.next ∧
      d.next < ((file.allocated j).toNat + 1) * blockSectors dev file)

/-- The bytes of a run on the device are those of the file. -/
theorem Run.bytes {d : Delayed} (run : Run dev file pos len j i d)
    (sectors : dev.log2blksz ≤ file.log2block) {x : Nat}
    (inside : skipAt file pos j + x < (i - j) * file.blocksize) :
    fileByte dev file (pos + (bufAt file pos j + x)) =
      dev.bytes (dev.start + (file.allocated j).toNat * blockSectors dev file)
        (skipAt file pos j + x) := by
  have positive := @blocksize_pos file
  have place : pos + (bufAt file pos j + x) = (skipAt file pos j + x) + j * file.blocksize := by
    unfold bufAt skipAt
    omega
  have quotient : (pos + (bufAt file pos j + x)) / file.blocksize =
      j + (skipAt file pos j + x) / file.blocksize := by
    rw [place, Nat.add_mul_div_right _ _ positive, Nat.add_comm]
  have remainder : (pos + (bufAt file pos j + x)) % file.blocksize =
      (skipAt file pos j + x) % file.blocksize := by
    rw [place, Nat.add_mul_mod_self_right]
  have later : (skipAt file pos j + x) / file.blocksize < i - j :=
    (Nat.div_lt_iff_lt_mul positive).mpr inside
  have some := run.nonempty
  obtain ⟨mapped, follows⟩ := run.adjacent (j + (skipAt file pos j + x) / file.blocksize)
    (Nat.le_add_right _ _) (by omega)
  have firstMapped := (run.adjacent j (Nat.le_refl j) run.nonempty).1
  rw [Nat.add_sub_cancel_left] at follows
  rw [follows] at mapped
  unfold fileByte
  simp only [quotient, remainder, follows]
  rw [if_neg (Int.ne_of_gt mapped), Int.toNat_add (Int.le_of_lt firstMapped) (Int.natCast_nonneg _),
    Int.toNat_natCast, Nat.add_mul, ← Nat.add_assoc, ← bytes_skip]
  congr 1
  rw [Nat.mul_assoc, ← blocksize_eq sectors, Nat.mul_comm]
  exact Nat.div_add_mod _ _

section Fixed

variable {d : Delayed} (run : Run dev file pos len j i d) (fit : Fit dev file pos len)

include run

theorem Run.start_le : pos ≤ i * file.blocksize := by
  have later : pos / file.blocksize < i := Nat.lt_of_le_of_lt run.first run.nonempty
  exact Nat.le_of_lt (behind_first later)

theorem Run.span : skipAt file pos j + d.extent ≤ (i - j) * file.blocksize ∧
    (i * file.blocksize ≤ pos + wanted file len →
      skipAt file pos j + d.extent = (i - j) * file.blocksize) := by
  have start := run.start_le
  have some := run.nonempty
  have order : j * file.blocksize ≤ i * file.blocksize :=
    Nat.mul_le_mul_right _ (Nat.le_of_lt some)
  rw [run.extent, Nat.sub_mul]
  unfold skipAt bufAt
  omega

include fit

theorem Run.inPartition :
    ((file.allocated j).toNat + (i - j)) * blockSectors dev file ≤ dev.size := by
  have some := run.nonempty
  obtain ⟨known, follows⟩ := run.adjacent (i - 1) (by omega) (by omega)
  have touched : Touched file pos len (i - 1) := ⟨Nat.le_trans run.first (by omega), run.last⟩
  have final := fit.form.mapped (i - 1) (fit.inside.blocks (i - 1) touched) known
  have firstKnown := (run.adjacent j (Nat.le_refl j) some).1
  have number : (file.allocated (i - 1 : Nat)).toNat + 1 = (file.allocated j).toNat + (i - j) := by
    omega
  rwa [number] at final

omit fit in
/-- Whole blocks are whole sectors, and read with checks. -/
theorem Run.requests_checked (sectors : dev.log2blksz ≤ file.log2block)
    (whole : i * file.blocksize ≤ pos + wanted file len) :
    ∀ request ∈ runRequests dev file pos len (j, i), request.checked = true := by
  have span := run.span.2 whole
  rw [run.extent] at span
  apply Ext4.requests_checked
  rw [runLength, span, blocksize_eq sectors, ← Nat.mul_assoc, Nat.mul_mod_left]

/-- The read of a run that was put off is refused, or it makes its requests. -/
theorem Run.spill_eq (sectors : dev.log2blksz ≤ file.log2block) (state : ReadState) (place : Nat) :
    spill dev stale ⟨state, d, place⟩ =
      if Refused dev (runSector dev file (j, i)) (skipAt file pos j) (runLength file pos len (j, i))
      then none else perform dev stale (runRequests dev file pos len (j, i)) state := by
  have some := run.nonempty
  have limit : file.blocksize ≤ 2 ^ 16 := Nat.pow_le_pow_right (by decide) fit.form.blockHigh
  have sized := fit.form.sized
  have partition := fit.form.partition
  have skipSmall := skipAt_lt run.first
  have span := run.span.1
  have fits := run.inPartition fit
  have length : d.extent = runLength file pos len (j, i) := run.extent
  have lengthSmall : runLength file pos len (j, i) ≤ file.size :=
    Nat.le_trans (Nat.sub_le _ _) (Nat.le_trans (Nat.min_le_right _ _) (Nat.min_le_right _ _))
  rw [length] at span
  have skipKept : toInt (d.skipfirst : Int) = (skipAt file pos j : Int) := by
    rw [run.skipfirst, toInt_of_lt (by omega) (by omega)]
  have last : (skipAt file pos j + runLength file pos len (j, i)) / dev.blksz ≤
      (i - j) * blockSectors dev file := by
    apply Nat.div_le_of_le_mul
    rw [Nat.mul_comm dev.blksz, Nat.mul_assoc, ← blocksize_eq sectors]
    exact span
  unfold spill
  simp only [run.start, skipKept, run.buf, length]
  refine devread_eq (Nat.le_trans sectors fit.form.blockHigh) (by omega) ?_ ?_
  · by_cases none : skipAt file pos j = 0
    · exact Or.inl none
    · right
      have single : i - j = 1 := by
        have := run.alone none
        omega
      rw [single, Nat.one_mul] at span
      exact Nat.lt_of_le_of_lt (Nat.le_trans span limit) (by decide)
  · rw [Nat.add_mul] at fits
    omega

omit fit in
/-- The requests of a run, if all succeed, fill the buffer up to its end. -/
theorem Run.filled (sectors : dev.log2blksz ≤ file.log2block) {mem : Memory}
    (filled : Filled dev file pos len base (bufAt file pos j) mem) :
    Filled dev file pos len base (min (bufAt file pos i) (wanted file len))
      ((runRequests dev file pos len (j, i)).foldl (fun mem request => request.place dev mem)
        mem) := by
  have span := run.span.1
  have size := run.extent
  have order : bufAt file pos j ≤ bufAt file pos i :=
    Nat.sub_le_sub_right (Nat.mul_le_mul_right _ (Nat.le_of_lt run.nonempty)) _
  rw [runRequests, placed_requests]
  unfold runLength runSector
  dsimp only
  rw [size] at span
  constructor
  · intro a less
    unfold Memory.place
    split
    case isTrue within =>
      have known := run.bytes sectors (x := a - bufAt file pos j) (by omega)
      rw [Nat.add_sub_cancel' within.1] at known
      exact known.symm
    case isFalse outside => exact filled.right a (by omega)
  · intro a beyond
    unfold Memory.place
    rw [if_neg (by omega)]
    exact filled.beyond a beyond

end Fixed

/-- The read that was put off is one of a block that fails; it fails, too. -/
structure Doomed (dev : BlockDev) (file : File) (pos len i : Nat) (d : Delayed) : Prop where
  pending : d.pending = true
  code : ∃ code, (code = 1 ∨ code = 12 ∨ code = 22) ∧
    d.start = 2 ^ 32 - code * blockSectors dev file ∧
    d.next = toUnsigned (d.start + (d.extent / dev.blksz : Nat))
  span : 0 < d.skipfirst + d.extent ∧ d.skipfirst + d.extent ≤ file.blocksize
  sector : i * file.blocksize < pos + wanted file len → dev.blksz ≤ d.extent

theorem Doomed.spill_none {d : Delayed} (doomed : Doomed dev file pos len i d)
    (form : WellFormed dev file) (sectors : dev.log2blksz ≤ file.log2block)
    (below : dev.size + 22 * blockSectors dev file < 2 ^ 32) (state : ReadState) (place : Nat) :
    spill dev stale ⟨state, d, place⟩ = none := by
  obtain ⟨code, codes, start, -⟩ := doomed.code
  obtain ⟨some, within⟩ := doomed.span
  have limit : file.blocksize ≤ 2 ^ 16 := Nat.pow_le_pow_right (by decide) form.blockHigh
  have blockEq := blocksize_eq sectors
  have last : (d.skipfirst + d.extent - 1) / dev.blksz < blockSectors dev file := by
    rw [Nat.div_lt_iff_lt_mul blksz_pos, ← blockEq]
    omega
  unfold spill
  simp only
  rw [toInt_of_lt (x := d.skipfirst) (by omega) (by omega)]
  apply devread_outside some (by omega) (by omega)
  · rw [start]
    generalize (d.skipfirst + d.extent - 1) / dev.blksz = sector at last
    rcases codes with rfl | rfl | rfl <;> omega
  · rw [start]
    generalize (d.skipfirst + d.extent - 1) / dev.blksz = sector at last
    rcases codes with rfl | rfl | rfl <;> omega

end Runs

/-! ## The loop -/

section Loop

variable {dev : BlockDev} {stale : Nat → UInt8} {file : File} {pos len i j : Nat} {base : Memory}

theorem KnownTo.succ (known : KnownTo file pos len i) (here : 0 ≤ file.allocated i) :
    KnownTo file pos len (i + 1) := by
  intro m touched before
  rcases Nat.lt_succ_iff_lt_or_eq.mp before with earlier | rfl
  · exact known m touched earlier
  · exact here

/-! ### The plan -/

theorem planAt_start : planAt file pos (pos / file.blocksize) = ⟨[], none⟩ := by
  unfold planAt
  rw [Nat.sub_self]
  rfl

theorem planAt_succ (low : pos / file.blocksize ≤ i) :
    planAt file pos (i + 1) = (planAt file pos i).add file pos i := by
  unfold planAt
  rw [Nat.succ_sub low, List.range'_concat, List.foldl_append, Nat.one_mul,
    Nat.add_sub_cancel' low]
  rfl

theorem Plan.add_done (plan : Plan) (i : Nat) :
    (plan.add file pos i).done = plan.done ∨ (plan.add file pos i).done = plan.runs i := by
  unfold Plan.add
  split_ifs
  · exact Or.inr rfl
  · exact Or.inl rfl
  · exact Or.inr rfl

theorem Passes.of_prefix {runs more : List (Nat × Nat)}
    (passes : Passes dev file pos len (runs ++ more)) : Passes dev file pos len runs := by
  refine ⟨fun run member => passes.accepted run (List.mem_append_left _ member), ?_⟩
  have checked := passes.checked
  rw [allRequests, List.flatMap_append, succeed_append] at checked
  exact checked.1

/-- Runs that are read before a block are read before a later one. -/
theorem passes_done {m : Nat} (low : pos / file.blocksize ≤ i) (later : i ≤ m)
    (passes : Passes dev file pos len (planAt file pos m).done) :
    Passes dev file pos len (planAt file pos i).done := by
  induction later with
  | refl => exact passes
  | @step m later ih =>
    rw [planAt_succ (Nat.le_trans low later)] at passes
    rcases Plan.add_done (planAt file pos m) m with same | closed
    · exact ih (same ▸ passes)
    · rw [closed] at passes
      exact ih passes.of_prefix

theorem allRequests_concat (runs : List (Nat × Nat)) (run : Nat × Nat) :
    allRequests dev file pos len (runs ++ [run]) =
      allRequests dev file pos len runs ++ runRequests dev file pos len run := by
  simp [allRequests]

/-- Runs are read, with checks. -/
structure Recorded (dev : BlockDev) (file : File) (pos len : Nat) (runs : List (Nat × Nat))
    (reads : Nat) : Prop where
  passes : Passes dev file pos len runs
  count : (allRequests dev file pos len runs).length = reads
  checked : ∀ request ∈ allRequests dev file pos len runs, request.checked = true

/-- What is known before a block is read. -/
inductive Pending (dev : BlockDev) (file : File) (pos len : Nat) (base : Memory) (i : Nat)
    (state : ReadState) (d : Delayed) : Prop
  | idle (known : KnownTo file pos len i) (off : d.pending = false)
      (first : (planAt file pos i).first = none)
      (traced : Recorded dev file pos len (planAt file pos i).done state.reads)
      (filled : Told dev file pos len →
        Filled dev file pos len base (min (bufAt file pos i) (wanted file len)) state.mem)
  | run (known : KnownTo file pos len i) (j : Nat) (run : Run dev file pos len j i d)
      (first : (planAt file pos i).first = some j)
      (traced : Recorded dev file pos len (planAt file pos i).done state.reads)
      (filled : Told dev file pos len →
        Filled dev file pos len base (bufAt file pos j) state.mem)
  | doomed (failed : ¬KnownTo file pos len i)
      (doomed : Noticed dev file pos len → Doomed dev file pos len i d)

section Step

variable (fit : Fit dev file pos len)
  (sectors : dev.log2blksz ≤ file.log2block)

/-- The read of a block is put off. -/
def putOff (dev : BlockDev) (file : File) (pos len i : Nat) : Delayed :=
  delay dev (blockSector dev file i) (skipAt file pos i)
    (endAt file pos len i - skipAt file pos i : Nat) (bufAt file pos i)

/-- A block is read with the blocks before it. -/
def Delayed.goOn (d : Delayed) (dev : BlockDev) (file : File) (pos len i : Nat) : Delayed :=
  { d with
    extent := toUnsigned (d.extent + (endAt file pos len i - skipAt file pos i : Nat))
    next := toUnsigned (d.next + (endAt file pos len i - skipAt file pos i : Nat) / dev.blksz) }

theorem delay_eq (blk skip count place : Nat) (fits : blk + 1 < 2 ^ 32) (skipSmall : skip < 2 ^ 32)
    (small : count < 2 ^ 32) :
    delay dev blk skip count place =
      ⟨true, blk, count, skip, toUnsigned (blk + (count / dev.blksz : Nat)), place⟩ := by
  have there : (toUnsigned (blk + 1) != 0) = true := by
    have next : toUnsigned (blk + 1) = blk + 1 := by
      exact_mod_cast toUnsigned_natCast (n := blk + 1) fits
    rw [next]
    simp
  unfold delay
  rw [toUnsigned_natCast small, toUnsigned_natCast skipSmall, there]
  push_cast
  rfl

include fit

theorem touched_bounds (touched : Touched file pos len i) :
    skipAt file pos i < file.blocksize ∧ endAt file pos len i ≤ file.blocksize ∧
      file.blocksize ≤ 2 ^ 16 ∧ i < 2 ^ 31 ∧ i * file.blocksize < file.size :=
  ⟨skipAt_lt touched.1, Nat.min_le_left _ _, Nat.pow_le_pow_right (by decide) fit.form.blockHigh,
    (touched_small fit touched).2, fit.inside.blocks i touched⟩

theorem touched_mapped (touched : Touched file pos len i) (known : 0 < file.allocated i) :
    blockSector dev file i = (file.allocated i).toNat * blockSectors dev file ∧
      0 < (file.allocated i).toNat * blockSectors dev file ∧
      (file.allocated i).toNat * blockSectors dev file + blockSectors dev file ≤ dev.size := by
  obtain ⟨-, -, -, small, within⟩ := touched_bounds fit touched
  have mapped := fit.form.mapped i within known
  have partition := fit.form.partition
  obtain ⟨sector, positive, -⟩ := @blockSector_mapped dev file i small known (by omega)
  rw [Nat.add_mul, Nat.one_mul] at mapped
  exact ⟨sector, positive, mapped⟩

include sectors

/-- A run starts with a block. -/
theorem run_start (touched : Touched file pos len i) (known : 0 < file.allocated i) :
    Run dev file pos len i (i + 1) (putOff dev file pos len i) := by
  obtain ⟨skipSmall, endSmall, limit, -, -⟩ := touched_bounds fit touched
  obtain ⟨sector, positive, fits⟩ := touched_mapped fit touched known
  have partition := fit.form.partition
  have several := @blockSectors_pos dev file
  have spans := bufAt_succ touched
  rw [putOff, delay_eq _ _ _ _ (by omega) (by omega) (by omega), sector]
  have blockEq := blocksize_eq sectors
  constructor
  · exact touched.1
  · exact Nat.lt_succ_self i
  · exact touched.2
  · rfl
  · rfl
  · rfl
  · rfl
  · simp only
    omega
  · intro m low high
    have same : m = i := by omega
    subst same
    exact ⟨known, by simp⟩
  · intro _
    rfl
  · intro more
    rw [Nat.add_mul] at more
    have whole : endAt file pos len i = file.blocksize := by
      unfold endAt
      omega
    have bound : (file.blocksize - skipAt file pos i) / dev.blksz ≤ blockSectors dev file := by
      rw [blockEq]
      exact Nat.div_le_of_le_mul (by rw [Nat.mul_comm dev.blksz]; exact Nat.sub_le _ _)
    have next : toUnsigned (((file.allocated i).toNat * blockSectors dev file : Nat) +
        ((file.blocksize - skipAt file pos i) / dev.blksz : Nat)) =
        (file.allocated i).toNat * blockSectors dev file +
          (file.blocksize - skipAt file pos i) / dev.blksz := by
      exact_mod_cast toUnsigned_natCast (n := (file.allocated i).toNat * blockSectors dev file +
          (file.blocksize - skipAt file pos i) / dev.blksz) (by omega)
    simp only [whole, next]
    constructor
    · intro none
      rw [none, Nat.sub_zero, Nat.add_sub_cancel_left, Nat.add_mul, Nat.one_mul]
      conv_lhs => rw [blockEq, Nat.mul_div_cancel _ blksz_pos]
    · intro part
      refine ⟨Nat.le_add_right _ _, ?_⟩
      have less : (file.blocksize - skipAt file pos i) / dev.blksz < blockSectors dev file := by
        rw [Nat.div_lt_iff_lt_mul blksz_pos, ← blockEq]
        omega
      rw [Nat.add_mul, Nat.one_mul]
      omega

omit sectors in
theorem Run.skip_of_follows {d : Delayed} (run : Run dev file pos len j i d)
    (touched : Touched file pos len i) (known : 0 < file.allocated i)
    (follows : d.next = blockSector dev file i) : skipAt file pos j = 0 := by
  obtain ⟨-, -, -, -, within⟩ := touched_bounds fit touched
  obtain ⟨sector, -, -⟩ := touched_mapped fit touched known
  have some := run.nonempty
  have firstKnown := (run.adjacent j (Nat.le_refl j) some).1
  by_contra left
  obtain ⟨low, high⟩ := (run.next touched.2).2 left
  rw [follows, sector] at low high
  have numbers : (file.allocated i).toNat = (file.allocated j).toNat := by
    have atMost := Nat.lt_of_mul_lt_mul_right high
    have atLeast := Nat.le_of_mul_le_mul_right low (@blockSectors_pos dev file)
    omega
  have before := Nat.lt_of_le_of_lt (Nat.mul_le_mul_right _ (Nat.le_of_lt some)) within
  have same := fit.form.once j i before within firstKnown (by omega)
  omega

omit sectors in
/-- The code finds that a block follows exactly if it does. -/
theorem Run.next_eq_iff {d : Delayed} (run : Run dev file pos len j i d)
    (touched : Touched file pos len i) (known : 0 < file.allocated i) :
    d.next = blockSector dev file i ↔ Follows file pos j i := by
  obtain ⟨sector, -, -⟩ := touched_mapped fit touched known
  have firstKnown := (run.adjacent j (Nat.le_refl j) run.nonempty).1
  constructor
  · intro follows
    have none := run.skip_of_follows fit touched known follows
    have place := (run.next touched.2).1 none
    rw [follows, sector] at place
    have numbers := Nat.eq_of_mul_eq_mul_right (@blockSectors_pos dev file) place
    exact ⟨none, by omega⟩
  · rintro ⟨none, number⟩
    have same : (file.allocated i).toNat = (file.allocated j).toNat + (i - j) := by omega
    rw [(run.next touched.2).1 none, sector, same]

omit sectors in
theorem Run.extent_succ {d : Delayed} (run : Run dev file pos len j i d)
    (touched : Touched file pos len i) :
    toUnsigned (d.extent + ((endAt file pos len i - skipAt file pos i : Nat) : Int)) =
      min (bufAt file pos (i + 1)) (wanted file len) - bufAt file pos j := by
  obtain ⟨-, -, limit, -, -⟩ := touched_bounds fit touched
  have sized := fit.form.sized
  have most : wanted file len ≤ file.size := Nat.min_le_right _ _
  have spans := bufAt_succ touched
  have size := run.extent
  have order : bufAt file pos j ≤ bufAt file pos i :=
    Nat.sub_le_sub_right (Nat.mul_le_mul_right _ (Nat.le_of_lt run.nonempty)) _
  have high := touched.2
  have total : d.extent + (endAt file pos len i - skipAt file pos i) =
      min (bufAt file pos (i + 1)) (wanted file len) - bufAt file pos j := by
    have up : bufAt file pos i ≤ wanted file len := by
      unfold bufAt
      omega
    omega
  rw [← total]
  exact_mod_cast toUnsigned_natCast (n := d.extent + (endAt file pos len i - skipAt file pos i))
    (by omega)

/-- A run goes on with a block that follows on the device. -/
theorem run_extend {d : Delayed} (run : Run dev file pos len j i d)
    (touched : Touched file pos len i) (known : 0 < file.allocated i)
    (follows : d.next = blockSector dev file i) :
    Run dev file pos len j (i + 1) (d.goOn dev file pos len i) := by
  obtain ⟨sector, positive, fits⟩ := touched_mapped fit touched known
  have partition := fit.form.partition
  have some := run.nonempty
  have blockEq := blocksize_eq sectors
  have firstKnown := (run.adjacent j (Nat.le_refl j) some).1
  obtain ⟨none, number⟩ := (run.next_eq_iff fit touched known).mp follows
  have noSkip := skipAt_eq_zero (Nat.lt_of_le_of_lt run.first some)
  constructor
  · exact run.first
  · exact Nat.lt_succ_of_lt some
  · exact touched.2
  · exact run.pending
  · exact run.start
  · exact run.buf
  · exact run.skipfirst
  · exact run.extent_succ fit touched
  · intro m low high
    rcases Nat.lt_succ_iff_lt_or_eq.mp high with before | rfl
    · exact run.adjacent m low before
    · exact ⟨known, number⟩
  · intro left
    exact absurd none left
  · intro more
    refine ⟨fun _ => ?_, fun left => absurd none left⟩
    rw [Nat.add_mul] at more
    have whole : endAt file pos len i = file.blocksize := by
      unfold endAt
      omega
    have blocks : (file.blocksize : Int) / dev.blksz = (blockSectors dev file : Nat) := by
      rw [blockEq, ← Int.natCast_ediv, Nat.mul_div_cancel _ blksz_pos]
    have place : (file.allocated i).toNat = (file.allocated j).toNat + (i - j) := by omega
    have count : i + 1 - j = i - j + 1 := by omega
    simp only [Delayed.goOn, whole, noSkip, Nat.sub_zero, blocks, follows, sector]
    rw [count, ← Nat.add_assoc, ← place, Nat.add_mul _ 1, Nat.one_mul]
    exact_mod_cast toUnsigned_natCast (n := (file.allocated i).toNat * blockSectors dev file +
      blockSectors dev file) (by omega)

omit fit sectors in
theorem code_fits (noticed : Noticed dev file pos len) {code : Nat}
    (codes : code = 1 ∨ code = 12 ∨ code = 22) :
    code * blockSectors dev file < 2 ^ 32 ∧ 2 ≤ blockSectors dev file := by
  have below := noticed.below
  have several := noticed.several
  have two : 2 ^ 1 ≤ blockSectors dev file := Nat.pow_le_pow_right (by decide) (by omega)
  rcases codes with rfl | rfl | rfl <;> omega

omit sectors in
theorem touched_failed (noticed : Noticed dev file pos len) (touched : Touched file pos len i)
    (failed : file.allocated i < 0) :
    ∃ code, (code = 1 ∨ code = 12 ∨ code = 22) ∧
      blockSector dev file i = 2 ^ 32 - code * blockSectors dev file := by
  obtain ⟨-, -, -, small, within⟩ := touched_bounds fit touched
  obtain ⟨code, codes, number⟩ : ∃ code : Nat, (code = 1 ∨ code = 12 ∨ code = 22) ∧
      file.allocated i = -code := by
    rcases fit.form.failure i within failed with minus | minus | minus
    · exact ⟨1, by simp, minus⟩
    · exact ⟨12, by simp, minus⟩
    · exact ⟨22, by simp, minus⟩
  exact ⟨code, codes, blockSector_failed small number (by omega) (code_fits noticed codes).1⟩

omit sectors in
/-- The read of a block that fails is put off. -/
theorem doomed_start (noticed : Noticed dev file pos len) (touched : Touched file pos len i)
    (failed : file.allocated i < 0) :
    Doomed dev file pos len (i + 1) (putOff dev file pos len i) := by
  obtain ⟨skipSmall, endSmall, limit, -, -⟩ := touched_bounds fit touched
  obtain ⟨code, codes, sector⟩ := touched_failed fit noticed touched failed
  obtain ⟨codeFits, two⟩ := code_fits noticed codes
  have spans := bufAt_succ touched
  have below := noticed.below
  have few : 2 ≤ code * blockSectors dev file := by
    rcases codes with rfl | rfl | rfl <;> omega
  rw [putOff, delay_eq _ _ _ _ (by omega) (by omega) (by omega)]
  constructor
  · rfl
  · exact ⟨code, codes, sector, rfl⟩
  · simp only
    omega
  · intro more
    rw [Nat.add_mul] at more
    have early := noticed.early
    have whole : endAt file pos len i = file.blocksize := by
      unfold endAt
      omega
    simp only [whole]
    rcases Nat.eq_or_lt_of_le touched.1 with rfl | later
    · have skip : skipAt file pos (pos / file.blocksize) = pos % file.blocksize := by
        have split := Nat.div_add_mod pos file.blocksize
        rw [Nat.mul_comm] at split
        unfold skipAt
        omega
      omega
    · have none := skipAt_eq_zero later
      omega

/-- No block follows a block that fails. -/
theorem doomed_next {d : Delayed} (noticed : Noticed dev file pos len)
    (doomed : Doomed dev file pos len i d) (touched : Touched file pos len i)
    (some : blockSector dev file i ≠ 0) : d.next ≠ blockSector dev file i := by
  obtain ⟨code, codes, start, next⟩ := doomed.code
  obtain ⟨codeFits, two⟩ := code_fits noticed codes
  obtain ⟨-, -, -, small, -⟩ := touched_bounds fit touched
  have below := noticed.below
  have blockEq := blocksize_eq sectors
  have low : 1 ≤ d.extent / dev.blksz :=
    (Nat.one_le_div_iff blksz_pos).mpr (doomed.sector touched.2)
  have high : d.extent / dev.blksz ≤ blockSectors dev file := by
    rw [← Nat.mul_div_cancel (blockSectors dev file) (@blksz_pos dev), ← blockEq]
    exact Nat.div_le_div_right (by have := doomed.span; omega)
  have place : d.next = (2 ^ 32 - code * blockSectors dev file + d.extent / dev.blksz) % 2 ^ 32 := by
    rw [next, start]
    unfold toUnsigned
    omega
  generalize d.extent / dev.blksz = count at low high place
  have ends : d.next = 0 ∨ d.next = 2 ^ 32 - code * blockSectors dev file + count := by
    have most : 2 ^ 32 - code * blockSectors dev file + count ≤ 2 ^ 32 := by
      rcases codes with rfl | rfl | rfl <;> omega
    rcases Nat.lt_or_eq_of_le most with less | full
    · exact Or.inr (place.trans (Nat.mod_eq_of_lt less))
    · left
      rw [place, full, Nat.mod_self]
  rcases ends with none | place
  · rw [none]
    exact some.symm
  rcases Int.lt_trichotomy (file.allocated i) 0 with failed | hole | known
  · obtain ⟨other, others, sector⟩ := touched_failed fit noticed touched failed
    rw [sector, place]
    rcases codes with rfl | rfl | rfl <;> rcases others with rfl | rfl | rfl <;> omega
  · exact absurd (blockSector_hole small hole) some
  · obtain ⟨sector, positive, fits⟩ := touched_mapped fit touched known
    rw [sector, place]
    rcases codes with rfl | rfl | rfl <;> omega

omit fit sectors in
theorem hole_whole (told : Told dev file pos len) (touched : Touched file pos len i)
    (hole : file.allocated i = 0) : (i + 1) * file.blocksize ≤ pos + wanted file len := by
  by_contra partly
  have high := touched.2
  have close := partly
  rw [Nat.add_mul] at close
  have block : (pos + wanted file len) / file.blocksize = i :=
    Nat.div_eq_of_lt_le (Nat.le_of_lt high) (Nat.lt_of_not_le partly)
  have rest : (pos + wanted file len) % file.blocksize ≠ 0 := by
    have split := Nat.div_add_mod (pos + wanted file len) file.blocksize
    rw [block, Nat.mul_comm] at split
    omega
  have data := told.data rest
  rw [block] at data
  exact data hole

variable {mem : Memory} {loop : ReadLoop}

omit fit sectors in
theorem filled_hole (touched : Touched file pos len i) (hole : file.allocated i = 0)
    (whole : (i + 1) * file.blocksize ≤ pos + wanted file len)
    (filled : Filled dev file pos len base (bufAt file pos i) mem) :
    Filled dev file pos len base (min (bufAt file pos (i + 1)) (wanted file len))
      (mem.fill (bufAt file pos i) (file.blocksize - skipAt file pos i) 0) := by
  have spans := (bufAt_succ touched).2.1
  have start := Nat.le_of_lt (behind_first (Nat.lt_succ_of_le touched.1))
  have fits : bufAt file pos (i + 1) ≤ wanted file len := by
    unfold bufAt
    omega
  constructor
  · intro a less
    by_cases before : a < bufAt file pos i
    · rw [Memory.fill_outside _ _ _ _ _ (Or.inl before), filled.right a before]
    · rw [Memory.fill_inside _ _ _ _ _ (by omega)]
      have block : (pos + a) / file.blocksize = i := by
        apply Nat.div_eq_of_lt_le
        · unfold bufAt at before
          omega
        · have : a < bufAt file pos (i + 1) := by omega
          unfold bufAt at this
          omega
      unfold fileByte
      simp only [block, hole, if_true]
  · intro a beyond
    rw [Memory.fill_outside _ _ _ _ _ (Or.inr (by omega)), filled.beyond a beyond]

/-- What is known when the read that was put off is made before a block. -/
structure Clear (dev : BlockDev) (file : File) (pos len : Nat) (base : Memory) (i : Nat)
    (state : ReadState) : Prop where
  traced : Recorded dev file pos len ((planAt file pos i).runs i) state.reads
  filled : Told dev file pos len → Filled dev file pos len base (bufAt file pos i) state.mem

section Spill

variable {d : Delayed} (run : Run dev file pos len j i d) {runs : List (Nat × Nat)}
  {state t : ReadState} {place : Nat} (traced : Recorded dev file pos len runs state.reads)

include run traced

theorem Run.spilled (ran : spill dev stale ⟨state, d, place⟩ = some t) :
    Passes dev file pos len (runs ++ [(j, i)]) ∧
      (allRequests dev file pos len (runs ++ [(j, i)])).length = t.reads ∧
      (Succeed dev (fun request => !request.checked) state.reads
          (runRequests dev file pos len (j, i)) →
        t.mem = (runRequests dev file pos len (j, i)).foldl
          (fun mem request => request.place dev mem) state.mem) := by
  rw [run.spill_eq fit sectors] at ran
  obtain ⟨accepted, ran⟩ := Option.ite_none_left_eq_some.mp ran
  obtain ⟨checked, reads, placed⟩ := perform_some ran
  refine ⟨⟨?_, ?_⟩, ?_, placed⟩
  · rw [List.forall_mem_append, List.forall_mem_singleton]
    exact ⟨traced.passes.accepted, accepted⟩
  · rw [allRequests_concat, succeed_append, Nat.zero_add, traced.count]
    exact ⟨traced.passes.checked, checked⟩
  · rw [allRequests_concat, List.length_append, traced.count, reads]

theorem Run.exists_spill (passes : Passes dev file pos len (runs ++ [(j, i)])) :
    ∃ t, spill dev stale ⟨state, d, place⟩ = some t := by
  have accepted := passes.accepted (j, i) (by simp)
  have checked := passes.checked
  rw [allRequests_concat, succeed_append, Nat.zero_add, traced.count] at checked
  rw [run.spill_eq fit sectors, if_neg accepted]
  exact exists_perform checked.2

end Spill

section Settle

variable {t : ReadState} (pending : Pending dev file pos len base i loop.state loop.delayed)
  (known : KnownTo file pos len i)

include pending known

/-- The read that was put off is made, with no failure among the reads that are checked. -/
theorem settle_made (ran : settle dev stale loop = some t) :
    Passes dev file pos len ((planAt file pos i).runs i) ∧
      (allRequests dev file pos len ((planAt file pos i).runs i)).length = t.reads ∧
      (i * file.blocksize ≤ pos + wanted file len → ∀ request ∈
        allRequests dev file pos len ((planAt file pos i).runs i), request.checked) ∧
      (Told dev file pos len → Succeed dev (fun request => !request.checked) 0
          (allRequests dev file pos len ((planAt file pos i).runs i)) →
        Filled dev file pos len base (min (bufAt file pos i) (wanted file len)) t.mem) := by
  unfold settle at ran
  cases pending with
  | idle _ off first traced filled =>
    rw [off] at ran
    obtain rfl := Option.some.inj ran
    rw [Plan.runs, first, Option.toList_none, List.map_nil, List.append_nil]
    exact ⟨traced.passes, traced.count, fun _ => traced.checked, fun told _ => filled told⟩
  | run _ j run first traced filled =>
    rw [if_pos run.pending] at ran
    obtain ⟨passes, count, placed⟩ := run.spilled fit sectors traced ran
    rw [Plan.runs, first]
    refine ⟨passes, count, fun high => ?_, fun told unchecked => ?_⟩
    · rw [Option.toList_some, List.map_singleton, allRequests_concat, List.forall_mem_append]
      exact ⟨traced.checked, run.requests_checked sectors high⟩
    · rw [Option.toList_some, List.map_singleton, allRequests_concat, succeed_append, Nat.zero_add,
        traced.count] at unchecked
      rw [placed unchecked.2]
      exact run.filled sectors (filled told)
  | doomed failed => exact absurd known failed

theorem settle_clear (touched : Touched file pos len i) (ran : settle dev stale loop = some t) :
    Clear dev file pos len base i t := by
  have high := touched.2
  obtain ⟨passes, count, checked, filled⟩ := settle_made fit sectors pending known ran
  have checks := checked (Nat.le_of_lt high)
  refine ⟨⟨passes, count, checks⟩, fun told => ?_⟩
  rw [show bufAt file pos i = min (bufAt file pos i) (wanted file len) by unfold bufAt; omega]
  exact filled told (succeed_of_none fun request member => by rw [checks request member]; rfl)

theorem exists_settle (passes : Passes dev file pos len ((planAt file pos i).runs i)) :
    ∃ t, settle dev stale loop = some t := by
  unfold settle
  cases pending with
  | idle _ off =>
    rw [off]
    exact ⟨_, rfl⟩
  | run _ j run first traced =>
    rw [if_pos run.pending]
    rw [Plan.runs, first] at passes
    exact run.exists_spill fit sectors traced passes
  | doomed failed => exact absurd known failed

omit sectors in
/-- The plan goes on with a run when the code does. -/
theorem add_mapped (touched : Touched file pos len i) (mapped : 0 < file.allocated i) :
    (planAt file pos i).add file pos i =
      if loop.delayed.pending ∧ loop.delayed.next = blockSector dev file i then planAt file pos i
      else ⟨(planAt file pos i).runs i, some i⟩ := by
  unfold Plan.add
  rw [if_neg (Int.ne_of_gt mapped)]
  cases pending with
  | idle _ off first => simp [off, first]
  | run _ j run first =>
    simp [first, run.pending, run.next_eq_iff fit touched mapped]
  | doomed failed => exact absurd known failed

end Settle

omit sectors in
/-- A pass of the loop, for a block of the read. -/
theorem readBlock_eq (touched : Touched file pos len i) (buf : loop.buf = bufAt file pos i) :
    readBlock dev stale file pos (wanted file len) (blockCount file pos len) loop i =
      if blockSector dev file i = 0 then
        (settle dev stale loop).map fun t =>
          ⟨⟨t.mem.fill (bufAt file pos i) (file.blocksize - skipAt file pos i) 0, t.reads⟩,
            { loop.delayed with pending := false }, bufAt file pos (i + 1)⟩
      else if loop.delayed.pending ∧ loop.delayed.next = blockSector dev file i then
        some ⟨loop.state, loop.delayed.goOn dev file pos len i, bufAt file pos (i + 1)⟩
      else (settle dev stale loop).map fun t =>
        ⟨t, putOff dev file pos len i, bufAt file pos (i + 1)⟩ := by
  obtain ⟨skipSmall, endSmall, limit, small, within⟩ := touched_bounds fit touched
  obtain ⟨spanEnd, spanBlock, -, -⟩ := bufAt_succ touched
  have step : toUnsigned ((file.blocksize : Int) - skipAt file pos i) =
      file.blocksize - skipAt file pos i := by
    rw [← Nat.cast_sub (Nat.le_of_lt skipSmall), toUnsigned_natCast (by omega)]
  obtain ⟨state, delayed, place⟩ := loop
  simp only at buf
  subst buf
  unfold readBlock settle
  simp only [blockSpan_eq fit touched, step, spanBlock]
  by_cases none : blockSector dev file i = 0
  · simp only [none, ne_eq, not_true_eq_false, ↓reduceIte, Option.map_eq_bind]
    rfl
  by_cases waiting : delayed.pending = true
  · by_cases follows : delayed.next = blockSector dev file i
    · simp [none, waiting, follows, Delayed.goOn]
    · simp only [none, waiting, follows, ne_eq, not_false_eq_true, ↓reduceIte, and_false,
        Option.map_eq_bind]
      rfl
  · simp [none, waiting, putOff]

omit sectors in
theorem blockSector_ne_zero (touched : Touched file pos len i) (mapped : 0 < file.allocated i) :
    blockSector dev file i ≠ 0 := by
  obtain ⟨sector, positive, -⟩ := touched_mapped fit touched mapped
  omega

theorem Doomed.settle_none (noticed : Noticed dev file pos len)
    (doomed : Doomed dev file pos len i loop.delayed) : settle dev stale loop = none := by
  rw [settle, if_pos doomed.pending]
  exact doomed.spill_none fit.form sectors noticed.below loop.state loop.buf

/-- A read that is put off for a block that fails is not made. -/
theorem doomed_none (noticed : Noticed dev file pos len) (touched : Touched file pos len i)
    (buf : loop.buf = bufAt file pos i) (doomed : Doomed dev file pos len i loop.delayed) :
    readBlock dev stale file pos (wanted file len) (blockCount file pos len) loop i = none := by
  have settled := @Doomed.settle_none _ stale _ _ _ _ fit sectors _ noticed doomed
  rw [readBlock_eq fit touched buf, settled]
  by_cases none : blockSector dev file i = 0
  · rw [if_pos none, Option.map_none]
  · have apart := doomed_next fit sectors noticed doomed touched none
    rw [if_neg none, if_neg fun follows => apart follows.2, Option.map_none]

omit sectors in
/-- No run goes on with a block that fails. -/
theorem failed_apart (noticed : Noticed dev file pos len) (known : KnownTo file pos len i)
    (touched : Touched file pos len i) (failed : file.allocated i < 0)
    (pending : Pending dev file pos len base i loop.state loop.delayed) :
    blockSector dev file i ≠ 0 ∧
      ¬(loop.delayed.pending ∧ loop.delayed.next = blockSector dev file i) := by
  obtain ⟨code, codes, sector⟩ := touched_failed fit noticed touched failed
  have codeFits := (code_fits noticed codes).1
  have below := noticed.below
  refine ⟨by rcases codes with rfl | rfl | rfl <;> omega, ?_⟩
  rintro ⟨waiting, follows⟩
  cases pending with
  | idle _ off => simp [off] at waiting
  | doomed failed => exact failed known
  | run _ j run =>
    -- The blocks of the run end in the partition, far below the number of a block that fails.
    have fits := run.inPartition fit
    have order := run.nonempty
    have least : (file.allocated j).toNat * blockSectors dev file + blockSectors dev file ≤
        ((file.allocated j).toNat + (i - j)) * blockSectors dev file := by
      rw [Nat.add_mul]
      have := Nat.mul_le_mul_right (blockSectors dev file) (show 1 ≤ i - j by omega)
      omega
    obtain ⟨plain, part⟩ := run.next touched.2
    have bound : loop.delayed.next ≤ dev.size := by
      by_cases none : skipAt file pos j = 0
      · rw [plain none]
        exact fits
      · have less := (part none).2
        rw [Nat.add_mul, Nat.one_mul] at less
        omega
    rw [follows, sector] at bound
    rcases codes with rfl | rfl | rfl <;> omega

/-- A pass of the loop keeps what is known. -/
theorem readBlock_pending (touched : Touched file pos len i) {next : ReadLoop}
    (buf : loop.buf = bufAt file pos i)
    (pending : Pending dev file pos len base i loop.state loop.delayed)
    (ran : readBlock dev stale file pos (wanted file len) (blockCount file pos len) loop i =
      some next) :
    next.buf = bufAt file pos (i + 1) ∧
      Pending dev file pos len base (i + 1) next.state next.delayed := by
  obtain ⟨-, -, -, small, -⟩ := touched_bounds fit touched
  have added := @planAt_succ file pos i touched.1
  by_cases known : KnownTo file pos len i
  · rw [readBlock_eq fit touched buf] at ran
    rcases Int.lt_trichotomy (file.allocated i) 0 with failed | hole | mapped
    · have unknown : ¬KnownTo file pos len (i + 1) := fun all =>
        absurd (all i touched (Nat.lt_succ_self i)) (by omega)
      split_ifs at ran with none follows
      · obtain ⟨t, settled, rfl⟩ := Option.map_eq_some_iff.mp ran
        exact ⟨rfl, .doomed unknown fun noticed => absurd none
          (failed_apart fit noticed known touched failed pending).1⟩
      · obtain rfl := Option.some.inj ran
        exact ⟨rfl, .doomed unknown fun noticed => absurd follows
          (failed_apart fit noticed known touched failed pending).2⟩
      · obtain ⟨t, settled, rfl⟩ := Option.map_eq_some_iff.mp ran
        exact ⟨rfl, .doomed unknown fun noticed => doomed_start fit noticed touched failed⟩
    · rw [if_pos (blockSector_hole small hole)] at ran
      obtain ⟨t, settled, rfl⟩ := Option.map_eq_some_iff.mp ran
      have clear := settle_clear fit sectors pending known touched settled
      have add : (planAt file pos (i + 1)) = ⟨(planAt file pos i).runs i, none⟩ := by
        rw [added, Plan.add, if_pos hole]
      refine ⟨rfl, .idle (known.succ (Int.le_of_eq hole.symm)) rfl (by rw [add]) ?_ fun told => ?_⟩
      · rw [add]
        exact clear.traced
      · exact filled_hole touched hole (hole_whole told touched hole) (clear.filled told)
    · have add := add_mapped fit pending known touched mapped
      rw [← added] at add
      have fine := known.succ (Int.le_of_lt mapped)
      rw [if_neg (blockSector_ne_zero fit touched mapped)] at ran
      split_ifs at ran add with follows
      · obtain rfl := Option.some.inj ran
        cases pending with
        | idle _ off => simp [off] at follows
        | doomed failed => exact absurd known failed
        | run _ j run first traced filled =>
          refine ⟨rfl, .run fine j (run_extend fit sectors run touched mapped follows.2)
            (by rw [add, first]) ?_ filled⟩
          rw [add]
          exact traced
      · obtain ⟨t, settled, rfl⟩ := Option.map_eq_some_iff.mp ran
        have clear := settle_clear fit sectors pending known touched settled
        refine ⟨rfl, .run fine i (run_start fit sectors touched mapped) (by rw [add]) ?_
          clear.filled⟩
        rw [add]
        exact clear.traced
  · have unknown : ¬KnownTo file pos len (i + 1) := fun all =>
      known fun m touchedM before => all m touchedM (Nat.lt_succ_of_lt before)
    cases pending with
    | idle all => exact absurd all known
    | run all => exact absurd all known
    | doomed _ doomed =>
      refine ⟨?_, .doomed unknown fun noticed => ?_⟩
      · rw [readBlock_eq fit touched buf] at ran
        split_ifs at ran
        · obtain ⟨t, -, rfl⟩ := Option.map_eq_some_iff.mp ran
          rfl
        · obtain rfl := Option.some.inj ran
          rfl
        · obtain ⟨t, -, rfl⟩ := Option.map_eq_some_iff.mp ran
          rfl
      · rw [doomed_none fit sectors noticed touched buf (doomed noticed)] at ran
        cases ran

/-- Where the runs pass, a pass of the loop goes on. -/
theorem exists_readBlock (touched : Touched file pos len i) (buf : loop.buf = bufAt file pos i)
    (pending : Pending dev file pos len base i loop.state loop.delayed)
    (known : KnownTo file pos len (i + 1))
    (passes : Passes dev file pos len (planAt file pos (i + 1)).done) :
    ∃ next, readBlock dev stale file pos (wanted file len) (blockCount file pos len) loop i =
      some next := by
  obtain ⟨-, -, -, small, -⟩ := touched_bounds fit touched
  have before : KnownTo file pos len i := fun m touchedM earlier =>
    known m touchedM (Nat.lt_succ_of_lt earlier)
  rw [planAt_succ touched.1] at passes
  rw [readBlock_eq fit touched buf]
  rcases Int.lt_or_eq_of_le (known i touched (Nat.lt_succ_self i)) with mapped | hole
  · rw [add_mapped fit pending before touched mapped] at passes
    rw [if_neg (blockSector_ne_zero fit touched mapped)]
    split_ifs at passes ⊢
    · exact ⟨_, rfl⟩
    · obtain ⟨t, settled⟩ := exists_settle fit sectors pending before passes
      rw [settled]
      exact ⟨_, rfl⟩
  · rw [Plan.add, if_pos hole.symm] at passes
    obtain ⟨t, settled⟩ := exists_settle fit sectors pending before passes
    rw [if_pos (blockSector_hole small hole.symm), settled]
    exact ⟨_, rfl⟩

theorem foldlM_pending (low : pos / file.blocksize ≤ i) {count : Nat}
    (high : count ≤ blockCount file pos len - i) {next : ReadLoop}
    (buf : loop.buf = bufAt file pos i)
    (pending : Pending dev file pos len base i loop.state loop.delayed)
    (ran : (List.range' i count).foldlM
      (readBlock dev stale file pos (wanted file len) (blockCount file pos len)) loop = some next) :
    next.buf = bufAt file pos (i + count) ∧
      Pending dev file pos len base (i + count) next.state next.delayed := by
  induction count generalizing i loop with
  | zero =>
    obtain rfl := Option.some.inj ran
    exact ⟨buf, pending⟩
  | succ count ih =>
    rw [List.range'_succ, List.foldlM_cons] at ran
    obtain ⟨behind, first, ran⟩ := Option.bind_eq_some_iff.mp ran
    have touched : Touched file pos len i := ⟨low, lt_blockCount.mp (by omega)⟩
    obtain ⟨bufNext, pendingNext⟩ :=
      readBlock_pending fit sectors touched buf pending first
    have later := ih (Nat.le_succ_of_le low) (by omega) bufNext pendingNext ran
    rwa [Nat.succ_add_eq_add_succ] at later

theorem exists_foldlM (known : Known file pos len) (low : pos / file.blocksize ≤ i) {count : Nat}
    (high : i + count = blockCount file pos len)
    (passes : Passes dev file pos len (planAt file pos (blockCount file pos len)).done)
    (buf : loop.buf = bufAt file pos i)
    (pending : Pending dev file pos len base i loop.state loop.delayed) :
    ∃ next, (List.range' i count).foldlM
      (readBlock dev stale file pos (wanted file len) (blockCount file pos len)) loop =
        some next := by
  induction count generalizing i loop with
  | zero => exact ⟨loop, rfl⟩
  | succ count ih =>
    have touched : Touched file pos len i := ⟨low, lt_blockCount.mp (by omega)⟩
    obtain ⟨behind, first⟩ := @exists_readBlock _ stale _ _ _ _ _ fit sectors _ touched buf
      pending (fun m touchedM _ => known m touchedM)
      (passes_done (Nat.le_succ_of_le low) (by omega) passes)
    obtain ⟨bufNext, pendingNext⟩ :=
      readBlock_pending fit sectors touched buf pending first
    rw [List.range'_succ, List.foldlM_cons, first]
    exact ih (Nat.le_succ_of_le low) (by omega) bufNext pendingNext

end Step

/-! ### The whole read -/

/-- The first blocks of the read. -/
def passBlocks (dev : BlockDev) (stale : Nat → UInt8) (file : File) (pos len count : Nat)
    (mem : Memory) : Option ReadLoop :=
  (List.range' (pos / file.blocksize) count).foldlM
    (readBlock dev stale file pos (wanted file len) (blockCount file pos len)) ⟨⟨mem, 0⟩, .none, 0⟩

/-- Where no block is looked up, nothing is read. -/
theorem readFile_untouched (untouched : ∀ i, ¬Touched file pos len i) (stale : Nat → UInt8)
    (mem : Memory) : Right dev file pos len mem (readFile dev stale file pos len mem) := by
  have positive := @blocksize_pos file
  have first := (@first_block file pos).1
  have none := untouched (pos / file.blocksize)
  have past : pos + wanted file len ≤ pos / file.blocksize * file.blocksize := by
    by_contra less
    exact none ⟨Nat.le_refl _, Nat.lt_of_not_le less⟩
  have length : (if file.size < len then file.size else len) = 0 := by
    unfold wanted at past
    split <;> omega
  have same : (0 + pos + file.blocksize - 1) / file.blocksize = pos / file.blocksize :=
    Nat.div_eq_of_lt_le (by omega) (by rw [Nat.add_mul]; omega)
  unfold readFile blockRange
  simp only [length, same, Nat.lt_irrefl, and_false, ↓reduceIte, Nat.sub_self, List.range'_zero]
  refine ⟨fun i touched => absurd touched (untouched i), ?_, fun a => rfl⟩
  split at length <;> omega

section Whole

variable (fit : Fit dev file pos len)
  (touched : Touched file pos len i) (sectors : dev.log2blksz ≤ file.log2block)

include fit

include touched in
theorem readFile_eq (stale : Nat → UInt8) (mem : Memory) : readFile dev stale file pos len mem =
    if file.log2block < dev.log2blksz then .undefined
    else
      match (passBlocks dev stale file pos len (blockCount file pos len - pos / file.blocksize)
        mem).bind (settle dev stale) with
      | none => .error
      | some state => .read (wanted file len) state.mem := by
  have length : (if file.size < len then file.size else len) = wanted file len := by
    unfold wanted
    split <;> omega
  have small := (touched_small fit touched).2
  have count := blockCount_small fit touched
  have first : toUnsigned ((pos / file.blocksize : Nat) : Int) = pos / file.blocksize :=
    toUnsigned_natCast (by have := touched.1; omega)
  have behind : toUnsigned ((wanted file len + pos + file.blocksize - 1) / file.blocksize : Nat) =
      blockCount file pos len := toUnsigned_natCast (Nat.lt_trans count (by decide))
  have some : pos / file.blocksize < blockCount file pos len :=
    Nat.lt_of_le_of_lt touched.1 (lt_blockCount.mpr touched.2)
  unfold readFile blockRange
  simp only [length, first, behind, some, and_true]
  rfl

include sectors

/-- What is known behind the first blocks of the read. -/
theorem pending_at {m : Nat} (low : pos / file.blocksize ≤ m)
    (high : m ≤ blockCount file pos len) {mem : Memory} {loop : ReadLoop}
    (ran : passBlocks dev stale file pos len (m - pos / file.blocksize) mem = some loop) :
    loop.buf = bufAt file pos m ∧ Pending dev file pos len mem m loop.state loop.delayed := by
  have first := (@first_block file pos).1
  have start : Pending dev file pos len mem (pos / file.blocksize) ⟨mem, 0⟩ .none := by
    refine .idle (fun m touched before => absurd touched.1 (by omega)) rfl ?_ ?_
      fun _ => ⟨fun a less => ?_, fun _ _ => rfl⟩
    · rw [planAt_start]
    · rw [planAt_start]
      exact ⟨⟨by simp, trivial⟩, rfl, by simp [allRequests]⟩
    · unfold bufAt at less
      omega
  have place : 0 = bufAt file pos (pos / file.blocksize) := by
    unfold bufAt
    omega
  have behind := foldlM_pending fit sectors (Nat.le_refl _)
    (Nat.sub_le_sub_right high _) place start ran
  rwa [Nat.add_sub_cancel' low] at behind

omit fit sectors in
theorem passBlocks_split {m : Nat} (low : pos / file.blocksize ≤ m)
    (high : m ≤ blockCount file pos len) {mem : Memory} {loop : ReadLoop}
    (ran : passBlocks dev stale file pos len (blockCount file pos len - pos / file.blocksize) mem =
      some loop) :
    ∃ before, passBlocks dev stale file pos len (m - pos / file.blocksize) mem = some before ∧
      (List.range' m (blockCount file pos len - m)).foldlM
        (readBlock dev stale file pos (wanted file len) (blockCount file pos len)) before =
          some loop := by
  have split : blockCount file pos len - pos / file.blocksize =
      (m - pos / file.blocksize) + (blockCount file pos len - m) := by omega
  have second : pos / file.blocksize + 1 * (m - pos / file.blocksize) = m := by omega
  rw [passBlocks, split, ← List.range'_append, second, List.foldlM_append] at ran
  exact Option.bind_eq_some_iff.mp ran

/-- The read that was put off last is made: no read failed, and the buffer is right. -/
theorem settle_right {mem : Memory} {loop : ReadLoop} {t : ReadState} (known : Known file pos len)
    (pending : Pending dev file pos len mem (blockCount file pos len) loop.state loop.delayed)
    (ran : settle dev stale loop = some t) :
    Passes dev file pos len (allRuns file pos len) ∧
      (Told dev file pos len → Filled dev file pos len mem (wanted file len) t.mem) := by
  have past := mt (@lt_blockCount file pos len (blockCount file pos len)).mpr (Nat.lt_irrefl _)
  have full : min (bufAt file pos (blockCount file pos len)) (wanted file len) =
      wanted file len := by
    unfold bufAt
    omega
  obtain ⟨passes, -, -, filled⟩ := settle_made fit sectors pending
    (fun m touched _ => known m touched) ran
  exact ⟨passes, fun told => full ▸ filled told told.unchecked⟩

end Whole

/-- Where the condition holds the read is right. -/
theorem right_of_readable (form : WellFormed dev file) (readable : Readable dev file pos len)
    (stale : Nat → UInt8) (mem : Memory) :
    Right dev file pos len mem (readFile dev stale file pos len mem) := by
  rcases readable with untouched | ⟨inside, sectors, blocks⟩
  · exact readFile_untouched untouched stale mem
  have fit : Fit dev file pos len := ⟨form, inside⟩
  by_cases untouched : ∀ i, ¬Touched file pos len i
  · exact readFile_untouched untouched stale mem
  push Not at untouched
  obtain ⟨i, touched⟩ := untouched
  have low : pos / file.blocksize ≤ blockCount file pos len :=
    Nat.le_of_lt (Nat.lt_of_le_of_lt touched.1 (lt_blockCount.mpr touched.2))
  have all (m : Nat) (inRange : Touched file pos len m) : m < blockCount file pos len :=
    lt_blockCount.mpr inRange.2
  rw [readFile_eq fit touched, if_neg (Nat.not_lt.mpr sectors)]
  split
  case h_1 => trivial
  case h_2 t ran =>
    obtain ⟨loop, passed, settled⟩ := Option.bind_eq_some_iff.mp ran
    have pending := (pending_at fit sectors low (Nat.le_refl _) passed).2
    rcases blocks with noticed | stops | told
    · exfalso
      obtain ⟨m, inRange, failed⟩ := noticed.block
      have unknown : ¬KnownTo file pos len (blockCount file pos len) := fun known =>
        absurd (known m inRange (all m inRange)) (by omega)
      cases pending with
      | idle known => exact unknown known
      | run known => exact unknown known
      | doomed _ doomed =>
        rw [(doomed noticed).settle_none fit sectors noticed] at settled
        cases settled
    · exfalso
      rcases stops with ⟨m, most, known, fails⟩ | ⟨known, fails⟩
      · apply fails
        rcases Nat.lt_or_ge m (pos / file.blocksize) with before | later
        · rw [planAt, Nat.sub_eq_zero_of_le (Nat.le_of_lt before)]
          exact ⟨by simp, trivial⟩
        · obtain ⟨before, first, -⟩ := passBlocks_split later most passed
          cases (pending_at fit sectors later most first).2 with
          | idle _ _ _ traced => exact traced.passes
          | run _ _ _ _ traced => exact traced.passes
          | doomed failed => exact absurd known failed
      · exact fails (settle_right fit sectors known pending settled).1
    · have filled := (settle_right fit sectors told.known pending settled).2 told
      refine ⟨told.known, inside.count, fun a => ?_⟩
      split
      case isTrue within => exact filled.right a within
      case isFalse beyond => exact filled.beyond a (Nat.le_of_not_lt beyond)

section Necessary

variable (fit : Fit dev file pos len)
  (touched : Touched file pos len i) (sectors : dev.log2blksz ≤ file.log2block)
  (known : Known file pos len) (passes : Passes dev file pos len (allRuns file pos len))

include fit touched sectors known passes

/-- Where all blocks can be told and no checked read fails, the read goes to its end. -/
theorem exists_read (stale : Nat → UInt8) (mem : Memory) : ∃ loop t,
    passBlocks dev stale file pos len (blockCount file pos len - pos / file.blocksize) mem =
      some loop ∧ settle dev stale loop = some t ∧
        readFile dev stale file pos len mem = .read (wanted file len) t.mem := by
  have low : pos / file.blocksize ≤ blockCount file pos len :=
    Nat.le_of_lt (Nat.lt_of_le_of_lt touched.1 (lt_blockCount.mpr touched.2))
  obtain ⟨place, start⟩ := @pending_at dev stale file pos len fit sectors _ (Nat.le_refl _)
    low mem ⟨⟨mem, 0⟩, .none, 0⟩ (by rw [passBlocks, Nat.sub_self]; rfl)
  obtain ⟨loop, ran⟩ := @exists_foldlM dev stale file pos len _ mem fit sectors _ known
    (Nat.le_refl _) (blockCount file pos len - pos / file.blocksize) (Nat.add_sub_cancel' low)
    passes.of_prefix place start
  have pending := (pending_at fit sectors low (Nat.le_refl _) ran).2
  obtain ⟨t, settled⟩ := @exists_settle dev stale file pos len _ mem fit sectors loop
    pending (fun m inRange _ => known m inRange) passes
  refine ⟨loop, t, ran, settled, ?_⟩
  rw [readFile_eq fit touched, if_neg (Nat.not_lt.mpr sectors), passBlocks, ran,
    Option.bind_some, settled]

variable (right : ∀ stale mem, Right dev file pos len mem (readFile dev stale file pos len mem))

include right

/-- A right read does not end in a part of a hole, which would be filled up to the end of its
block. -/
theorem data_of_right (part : (pos + wanted file len) % file.blocksize ≠ 0) :
    file.allocated ((pos + wanted file len) / file.blocksize : Nat) ≠ 0 := by
  intro hole
  have positive := @blocksize_pos file
  have split := Nat.div_add_mod (pos + wanted file len) file.blocksize
  rw [Nat.mul_comm] at split
  have order : pos / file.blocksize ≤ (pos + wanted file len) / file.blocksize :=
    Nat.div_le_div_right (Nat.le_add_right _ _)
  generalize (pos + wanted file len) / file.blocksize = last at split hole order
  have below := Nat.mod_lt (pos + wanted file len) positive
  have high : last * file.blocksize < pos + wanted file len := by omega
  have inRange : Touched file pos len last := ⟨order, high⟩
  have count : blockCount file pos len = last + 1 := by
    have one := lt_blockCount.mpr high
    have two := mt (@lt_blockCount file pos len (last + 1)).mp (by rw [Nat.add_mul]; omega)
    omega
  obtain ⟨loop, t, ran, settled, read⟩ :=
    exists_read fit touched sectors known passes (fun _ => 0) fun _ => 1
  obtain ⟨before, first, pass⟩ := passBlocks_split inRange.1 (by omega) ran
  obtain ⟨buf, -⟩ := pending_at fit sectors inRange.1 (by omega) first
  have small := (touched_small fit inRange).2
  rw [count, Nat.add_sub_cancel_left] at pass
  rw [← count, List.range'_one, List.foldlM_cons, readBlock_eq fit inRange buf,
    if_pos (blockSector_hole small hole)] at pass
  obtain ⟨next, one, pass⟩ := Option.bind_eq_some_iff.mp pass
  obtain rfl := Option.some.inj pass
  obtain ⟨u, -, rfl⟩ := Option.map_eq_some_iff.mp one
  obtain rfl := Option.some.inj settled
  have content := right (fun _ => 0) fun _ => 1
  rw [read] at content
  have byte := content.2.2 (wanted file len)
  rw [if_neg (Nat.lt_irrefl _)] at byte
  have spans := (bufAt_succ inRange).2.1
  have within : bufAt file pos last ≤ wanted file len ∧
      wanted file len < bufAt file pos last + (file.blocksize - skipAt file pos last) := by
    rw [spans]
    unfold bufAt
    rw [Nat.add_mul]
    omega
  have zero := Memory.fill_inside u.mem _ _ _ 0 within
  exact absurd (zero.symm.trans byte : (0 : UInt8) = 1) (by decide)

/-- In a right read the requests that are not checked succeed: otherwise a byte is what was in their
buffer. -/
theorem unchecked_of_right : Succeed dev (fun request => !request.checked) 0
    (allRequests dev file pos len (allRuns file pos len)) := by
  by_contra failed
  have low : pos / file.blocksize ≤ blockCount file pos len :=
    Nat.le_of_lt (Nat.lt_of_le_of_lt touched.1 (lt_blockCount.mpr touched.2))
  have done (stale : Nat → UInt8) {loop : ReadLoop} (ran : passBlocks dev stale file pos len
      (blockCount file pos len - pos / file.blocksize) Memory.blank = some loop) :
      Pending dev file pos len Memory.blank (blockCount file pos len) loop.state loop.delayed :=
    (pending_at fit sectors low (Nat.le_refl _) ran).2
  obtain ⟨loop, -, ran, -⟩ :=
    exists_read fit touched sectors known passes (fun _ => 0) Memory.blank
  have all : KnownTo file pos len (blockCount file pos len) := fun m inRange _ => known m inRange
  cases done _ ran with
  | doomed failed => exact failed all
  | idle _ _ first traced =>
    apply failed
    rw [allRuns, Plan.runs, first, Option.toList_none, List.map_nil, List.append_nil]
    exact succeed_of_none fun request member => by rw [traced.checked request member]; rfl
  | run _ j _ first traced =>
    have runs : allRuns file pos len =
        (planAt file pos (blockCount file pos len)).done ++ [(j, blockCount file pos len)] := by
      rw [allRuns, Plan.runs, first]
      rfl
    rw [runs, allRequests_concat, succeed_append, Nat.zero_add] at failed
    have last := fun fine => failed ⟨succeed_of_none fun request member => by
      rw [traced.checked request member]
      rfl, fine⟩
    obtain ⟨a, start, before, byte⟩ := requests_stale _ _ _ _ _ last
    obtain ⟨loop, t, ran, settled, read⟩ := exists_read fit touched sectors known passes
      (fun _ => if fileByte dev file (pos + a) = 0 then 1 else 0) Memory.blank
    cases done _ ran with
    | doomed failed => exact failed all
    | idle _ _ none => cases none.symm.trans first
    | run _ other run found traced =>
      obtain rfl := Option.some.inj (found.symm.trans first)
      rw [settle, if_pos run.pending, run.spill_eq fit sectors] at settled
      obtain ⟨-, performed⟩ := Option.ite_none_left_eq_some.mp settled
      have value := byte _ _ t traced.count.symm performed
      have content := right (fun _ => if fileByte dev file (pos + a) = 0 then 1 else 0) Memory.blank
      rw [read] at content
      have short : a < wanted file len := by
        unfold runLength at before
        dsimp only at start before
        omega
      have right := content.2.2 a
      rw [if_pos short, value] at right
      split at right
      case isTrue zero =>
        rw [zero] at right
        exact absurd right (by decide)
      case isFalse other => exact other right.symm

end Necessary

/-- For every file of a well-formed image, position and length, and however reads of the device
fail: where the condition holds, an error is returned or the buffer has exactly the bytes of the
file, block by block as they are on the device or zero, their count is returned, and nothing else is
written. Where the read is in the file and all its blocks can be told, it is so only then. -/
theorem readFile_right (dev : BlockDev) (file : File) (form : WellFormed dev file)
    (pos len : Nat) :
    (Readable dev file pos len →
      ∀ stale mem, Right dev file pos len mem (readFile dev stale file pos len mem)) ∧
    (Within file pos len → Known file pos len →
      (∀ stale mem, Right dev file pos len mem (readFile dev stale file pos len mem)) →
      Readable dev file pos len) := by
  refine ⟨right_of_readable form, fun inside known right => ?_⟩
  have fit : Fit dev file pos len := ⟨form, inside⟩
  by_cases untouched : ∀ i, ¬Touched file pos len i
  · exact Or.inl untouched
  push Not at untouched
  obtain ⟨i, touched⟩ := untouched
  have sectors : dev.log2blksz ≤ file.log2block := by
    by_contra larger
    have defined := right (fun _ => 0) Memory.blank
    rw [readFile_eq fit touched, if_pos (Nat.lt_of_not_le larger)] at defined
    exact defined
  refine Or.inr ⟨inside, sectors, Or.inr ?_⟩
  by_cases passes : Passes dev file pos len (allRuns file pos len)
  · exact Or.inr ⟨known, data_of_right fit touched sectors known passes right,
      unchecked_of_right fit touched sectors known passes right⟩
  · exact Or.inl (Or.inr ⟨known, passes⟩)

/-- A partition of 100 sectors of 512 bytes, of which all reads succeed, or none. -/
def sampleDev (works : Bool) : BlockDev where
  log2blksz := 9
  start := 64
  size := 100
  sector number _ := UInt8.ofNat number
  answers _ _ _ := works

/-- A file in blocks of 1 KiB, of which the first two are on the device, one behind the other. -/
def sampleFile (size : Nat) : File where
  log2block := 10
  size := size
  allocated i := if i = 0 then 5 else if i = 1 then 6 else 0

theorem sampleFile_allocated (size : Nat) (i : Int) : 0 ≤ (sampleFile size).allocated i := by
  unfold sampleFile
  simp only
  split <;> [decide; split <;> decide]

theorem sampleFile_wellFormed (works : Bool) (size : Nat) (sized : size < 2 ^ 32) :
    WellFormed (sampleDev works) (sampleFile size) := by
  refine ⟨Nat.le_refl 10, Nat.le_add_right 10 6, sized, show 164 < 2 ^ 32 by decide, ?_, ?_, ?_⟩
  · intro i _ known
    have sectors : blockSectors (sampleDev works) (sampleFile size) = 2 := rfl
    rw [sectors]
    unfold sampleFile sampleDev at *
    simp only at known ⊢
    split at known
    · simp [*]
    · split at known
      · simp [*]
      · simp at known
  · intro i j _ _ known same
    unfold sampleFile at *
    simp only at known same
    split at known
    · split at same
      · omega
      · split at same <;> omega
    · split at known
      · split at same <;> omega
      · simp at known
  · intro i _ failed
    have fine := sampleFile_allocated size i
    omega

def Outcome.count : Outcome → Option Nat
  | .read count _ => some count
  | _ => none

theorem sampleFile_known (size pos len : Nat) : Known (sampleFile size) pos len :=
  fun i _ => sampleFile_allocated size i

theorem succeed_of_answers {matters : Request → Bool} {n : Nat} {rest : List Request}
    (answers : ∀ n sector count, dev.answers n sector count = true) :
    Succeed dev matters n rest := by
  induction rest generalizing n with
  | nil => trivial
  | cons request rest ih => exact ⟨fun _ => answers _ _ _, ih⟩

/-- All the 1500 bytes of the file are read at once, and they are right. In a file of 2500 bytes the
last block is a hole, but when no read succeeds the condition holds: that is noticed before. -/
theorem readFile_right_sample :
    (readFile (sampleDev true) (fun _ => 0) (sampleFile 1500) 0 1500 .blank).count = some 1500 ∧
      Right (sampleDev true) (sampleFile 1500) 0 1500 .blank
        (readFile (sampleDev true) (fun _ => 0) (sampleFile 1500) 0 1500 .blank) ∧
      Readable (sampleDev false) (sampleFile 2500) 0 2500 ∧
      Right (sampleDev false) (sampleFile 2500) 0 2500 .blank
        (readFile (sampleDev false) (fun _ => 0) (sampleFile 2500) 0 2500 .blank) := by
  have broken : Readable (sampleDev false) (sampleFile 2500) 0 2500 := by
    refine Or.inr ⟨⟨by decide, fun i touched => touched.2⟩, by decide, Or.inr (Or.inl (Or.inr ?_))⟩
    exact ⟨sampleFile_known 2500 0 2500, fun passes => Bool.noConfusion (passes.checked.1 rfl)⟩
  refine ⟨by decide +kernel, ?_, broken, ?_⟩
  · refine (readFile_right (sampleDev true) (sampleFile 1500)
      (sampleFile_wellFormed true 1500 (by decide)) 0 1500).1 ?_ (fun _ => 0) .blank
    refine Or.inr ⟨⟨by decide, fun i touched => touched.2⟩, by decide, Or.inr (Or.inr ?_)⟩
    exact ⟨sampleFile_known 1500 0 1500, fun _ => by decide, succeed_of_answers fun _ _ _ => rfl⟩
  · exact (readFile_right (sampleDev false) (sampleFile 2500)
      (sampleFile_wellFormed false 2500 (by decide)) 0 2500).1 broken (fun _ => 0) .blank

/-- The bytes from the fifth on of a file of 10 bytes are five, but the code reads ten. -/
theorem readFile_past_end :
    WellFormed (sampleDev true) (sampleFile 10) ∧
      (readFile (sampleDev true) (fun _ => 0) (sampleFile 10) 5 10 .blank).count = some 10 ∧
      ¬Right (sampleDev true) (sampleFile 10) 5 10 .blank
        (readFile (sampleDev true) (fun _ => 0) (sampleFile 10) 5 10 .blank) := by
  have count :
      (readFile (sampleDev true) (fun _ => 0) (sampleFile 10) 5 10 .blank).count = some 10 := by
    decide +kernel
  refine ⟨sampleFile_wellFormed true 10 (by decide), count, ?_⟩
  cases outcome : readFile (sampleDev true) (fun _ => 0) (sampleFile 10) 5 10 .blank with
  | undefined => exact id
  | error =>
    rw [outcome] at count
    cases count
  | read bytes after =>
    rw [outcome] at count
    obtain rfl := Option.some.inj count
    intro right
    exact absurd right.2.1 (by decide)

end Loop

end HrppBoot.Ext4
