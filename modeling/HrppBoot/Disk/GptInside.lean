import HrppBoot.Disk.Gpt

/-!
# Where the partition table is read

`get_partition_info_efi` and `print_part_efi` with the ranges that they access, in the buffer of one
block for the header, in the table of entries on the heap, and in `info`. The length that a header
states for its checksum, the number and the size of its entries and the names of the entries are
taken as they are.
-/

namespace HrppBoot.Disk

open ByteMemory LittleEndian

/-! ## Ranges -/

inductive GptBuffer where
  /-- `gpt_head`, one block. -/
  | head
  /-- `gpt_pte`, as many bytes as were allocated. -/
  | table (size : Nat)
  | infoName
  | infoType
  | infoUuid
  deriving DecidableEq

def GptBuffer.size (dev : BlockDev) : GptBuffer → Nat
  | head => dev.blksz
  | table size => size
  | infoName => 32
  | infoType => 32
  | infoUuid => 37

structure GptAccess where
  buffer : GptBuffer
  start : Nat
  length : Nat

def GptAccess.Inside (dev : BlockDev) (access : GptAccess) : Prop :=
  access.start + access.length ≤ access.buffer.size dev

def AllInside (dev : BlockDev) (accesses : List GptAccess) : Prop :=
  ∀ access ∈ accesses, access.Inside dev

structure GptHeap where
  /-- `memalign` has the bytes for the table of the header in a block. -/
  grants : (lba size : Nat) → Bool
  /-- The bytes that follow the table are those from its length on. -/
  behind : Memory

/-! ## The functions -/

/-- `PAD_TO_BLOCKSIZE`, a `size_t`. -/
def padToBlocksize (count : Nat) (dev : BlockDev) : Nat := blockCnt count dev * dev.blksz % 2 ^ 32

/-- The ranges of `validate_gpt_header`: the header, and the bytes of its checksum behind a right
signature. -/
def headerAccesses (h : GptHeader) : List GptAccess :=
  ⟨.head, 0, gptHeaderBytes⟩ ::
    if h.signature = gptHeaderSignature then [⟨.head, 0, h.headerSize⟩] else []

/-- `is_gpt_valid`: the header and the entries when both are valid, and the ranges. -/
def isGptValidAt (dev : BlockDev) (disk : Memory) (heap : GptHeap) (lba : Nat) :
    Option (GptHeader × List UInt8) × List GptAccess :=
  match blockRead dev disk (lbaint lba) 1 with
  | none => (none, [])
  | some buffer =>
    let h := GptHeader.decode buffer
    let header := ⟨.head, 0, dev.blksz⟩ :: headerAccesses h
    if !validateGptHeader dev buffer (lbaint lba) dev.lba then (none, header)
    else if h.entryBytes = 0 then (none, header)
    else if !heap.grants lba (padToBlocksize h.entryBytes dev) then (none, header)
    else
      match blockRead dev disk (lbaint h.partitionEntryLba) (blockCnt h.entryBytes dev) with
      | none => (none, header)
      | some pte =>
        let table := GptBuffer.table (padToBlocksize h.entryBytes dev)
        let accesses := header ++ [⟨table, 0, blockCnt h.entryBytes dev * dev.blksz⟩,
          ⟨table, 0, h.entryBytes⟩]
        if validateGptEntries h pte then (some (h, pte), accesses) else (none, accesses)

def backupLba (dev : BlockDev) : Nat := lbaint (dev.lba + 2 ^ 32 - 1)

/-- The first header when it is valid, or else the second, and the ranges. -/
def firstValid (primary backup : Option (GptHeader × List UInt8) × List GptAccess) :
    Option (GptHeader × List UInt8) × List GptAccess :=
  match primary.1 with
  | some found => (some found, primary.2)
  | none => (backup.1, primary.2 ++ backup.2)

/-- The header in block 1, or else the one in the last block. -/
def gptOf (dev : BlockDev) (disk : Memory) (heap : GptHeap) :
    Option (GptHeader × List UInt8) × List GptAccess :=
  firstValid (isGptValidAt dev disk heap 1) (isGptValidAt dev disk heap (backupLba dev))

/-- `gpt_pte[i]` -/
def entryAt (heap : GptHeap) (pte : List UInt8) (i : Nat) : GptEntry :=
  GptEntry.decode ((heap.behind.store 0 pte).load (i * gptEntryBytes) gptEntryBytes)

def GptHeader.table (h : GptHeader) (dev : BlockDev) : GptBuffer :=
  .table (padToBlocksize h.entryBytes dev)

/-- What `sprintf` and `uuid_bin_to_str` write to `info`. -/
def infoAccesses (info : PartitionInfo) : List GptAccess :=
  [⟨.infoName, 0, info.name.length + 1⟩, ⟨.infoType, 0, 7⟩, ⟨.infoUuid, 0, 37⟩]

/-- `get_partition_info_efi`, with the ranges. -/
def partitionInfoAccesses (dev : BlockDev) (disk : Memory) (heap : GptHeap) (part : Nat) :
    Option PartitionInfo × List GptAccess :=
  if part < 1 then (none, [])
  else
    let gpt := gptOf dev disk heap
    match gpt.1 with
    | none => (none, gpt.2)
    | some (h, pte) =>
      if part > h.numPartitionEntries then (none, gpt.2)
      else
        let e := entryAt heap pte (part - 1)
        let type := gpt.2 ++ [⟨h.table dev, (part - 1) * gptEntryBytes, 16⟩]
        if !isPteValid e then (none, type)
        else
          (some (infoOf dev e), type ++
            ⟨h.table dev, (part - 1) * gptEntryBytes, gptEntryBytes⟩ :: infoAccesses (infoOf dev e))

/-- The loop of `print_part_efi` over a number of entries from one on: the entries that are shown,
and the ranges. -/
def printEntries (table : GptBuffer) (entry : Nat → GptEntry) :
    (n i : Nat) → List GptEntry × List GptAccess
  | 0, _ => ([], [])
  | n + 1, i =>
    if !isPteValid (entry i) then ([], [⟨table, i * gptEntryBytes, 16⟩])
    else
      let later := printEntries table entry n (i + 1)
      (entry i :: later.1, ⟨table, i * gptEntryBytes, 16⟩ ::
        ⟨table, i * gptEntryBytes, gptEntryBytes⟩ :: later.2)

/-- `print_part_efi`: the entries that are shown, and the ranges. -/
def printPartEfi (dev : BlockDev) (disk : Memory) (heap : GptHeap) :
    Option (List GptEntry) × List GptAccess :=
  let gpt := gptOf dev disk heap
  match gpt.1 with
  | none => (none, gpt.2)
  | some (h, pte) =>
    let shown := printEntries (h.table dev) (entryAt heap pte) h.numPartitionEntries 0
    (some shown.1, gpt.2 ++ shown.2)

/-! ## The header and the table -/

/-- The header in a block, behind a right signature, states a length that fits a block. -/
def HeaderFits (dev : BlockDev) (disk : Memory) (lba : Nat) : Prop :=
  ∀ buffer, blockRead dev disk (lbaint lba) 1 = some buffer →
    (GptHeader.decode buffer).signature = gptHeaderSignature →
      (GptHeader.decode buffer).headerSize ≤ dev.blksz

/-- The whole blocks of a table that is read have fewer bytes than a `size_t` counts. -/
def TableFits (dev : BlockDev) (disk : Memory) (heap : GptHeap) (lba : Nat) : Prop :=
  ∀ buffer pte, blockRead dev disk (lbaint lba) 1 = some buffer →
    validateGptHeader dev buffer (lbaint lba) dev.lba = true →
    (GptHeader.decode buffer).entryBytes ≠ 0 →
    heap.grants lba (padToBlocksize (GptHeader.decode buffer).entryBytes dev) = true →
    blockRead dev disk (lbaint (GptHeader.decode buffer).partitionEntryLba)
      (blockCnt (GptHeader.decode buffer).entryBytes dev) = some pte →
      blockCnt (GptHeader.decode buffer).entryBytes dev * dev.blksz < 2 ^ 32

variable {dev : BlockDev} {disk : Memory} {heap : GptHeap} {lba : Nat}

theorem allInside_append {first second : List GptAccess} :
    AllInside dev (first ++ second) ↔ AllInside dev first ∧ AllInside dev second :=
  List.forall_mem_append

theorem allInside_cons {access : GptAccess} {rest : List GptAccess} :
    AllInside dev (access :: rest) ↔ access.Inside dev ∧ AllInside dev rest :=
  List.forall_mem_cons

theorem allInside_nil : AllInside dev [] := fun _ none => absurd none List.not_mem_nil

theorem le_blockCnt (count : Nat) (dev : BlockDev) : count ≤ blockCnt count dev * dev.blksz := by
  have wide := dev.wide
  have split := Nat.div_add_mod (count - 1) dev.blksz
  have part := Nat.mod_lt (count - 1) (show 0 < dev.blksz by omega)
  have same : blockCnt count dev * dev.blksz =
      dev.blksz * ((count - 1) / dev.blksz) + dev.blksz := by
    rw [blockCnt, Nat.add_mul, Nat.one_mul, Nat.mul_comm]
  omega

theorem headerAccesses_inside {h : GptHeader} :
    AllInside dev (⟨.head, 0, dev.blksz⟩ :: headerAccesses h) ↔
      (h.signature = gptHeaderSignature → h.headerSize ≤ dev.blksz) := by
  have wide := dev.wide
  have block : GptAccess.Inside dev ⟨.head, 0, dev.blksz⟩ := Nat.le_of_eq (Nat.zero_add _)
  have fields : GptAccess.Inside dev ⟨.head, 0, gptHeaderBytes⟩ :=
    show 0 + 92 ≤ dev.blksz by omega
  rw [headerAccesses, allInside_cons, allInside_cons, and_iff_right block, and_iff_right fields]
  by_cases right : h.signature = gptHeaderSignature
  · rw [if_pos right, allInside_cons, and_iff_left allInside_nil]
    have same : GptAccess.Inside dev ⟨.head, 0, h.headerSize⟩ ↔ h.headerSize ≤ dev.blksz := by
      rw [GptAccess.Inside, Nat.zero_add]
      rfl
    rw [same]
    exact (imp_iff_right right).symm
  · rw [if_neg right]
    exact iff_of_true allInside_nil fun found => absurd found right

theorem tableAccesses_inside {count : Nat} :
    AllInside dev [⟨.table (padToBlocksize count dev), 0, blockCnt count dev * dev.blksz⟩,
        ⟨.table (padToBlocksize count dev), 0, count⟩] ↔
      blockCnt count dev * dev.blksz < 2 ^ 32 := by
  have inside := le_blockCnt count dev
  have small := Nat.mod_lt (blockCnt count dev * dev.blksz) (show 0 < 2 ^ 32 by decide)
  rw [allInside_cons, allInside_cons, and_iff_left allInside_nil]
  simp only [GptAccess.Inside, GptBuffer.size, padToBlocksize, Nat.zero_add]
  constructor
  · rintro ⟨whole, -⟩
    exact Nat.lt_of_le_of_lt whole small
  · intro fits
    rw [Nat.mod_eq_of_lt fits]
    exact ⟨Nat.le_refl _, inside⟩

/-- The ranges of `is_gpt_valid` lie in the block and in the table. -/
theorem isGptValidAt_inside (dev : BlockDev) (disk : Memory) (heap : GptHeap) (lba : Nat) :
    AllInside dev (isGptValidAt dev disk heap lba).2 ↔
      HeaderFits dev disk lba ∧ TableFits dev disk heap lba := by
  unfold isGptValidAt HeaderFits TableFits
  cases read : blockRead dev disk (lbaint lba) 1 with
  | none =>
    refine iff_of_true allInside_nil ⟨?_, ?_⟩
    · rintro _ none
      cases none
    · rintro _ _ none
      cases none
  | some buffer =>
    dsimp only
    have header := @headerAccesses_inside dev (GptHeader.decode buffer)
    have first : (∀ found, some buffer = some found →
        (GptHeader.decode found).signature = gptHeaderSignature →
          (GptHeader.decode found).headerSize ≤ dev.blksz) ↔
        ((GptHeader.decode buffer).signature = gptHeaderSignature →
          (GptHeader.decode buffer).headerSize ≤ dev.blksz) :=
      ⟨fun all => all buffer rfl, fun fits found same => by cases same; exact fits⟩
    rw [first, ← header]
    cases valid : validateGptHeader dev buffer (lbaint lba) dev.lba with
    | false =>
      rw [Bool.not_false, if_pos rfl]
      refine (and_iff_left fun found pte same right => ?_).symm
      cases same
      rw [valid] at right
      cases right
    | true =>
      rw [Bool.not_true, if_neg Bool.false_ne_true]
      by_cases empty : (GptHeader.decode buffer).entryBytes = 0
      · rw [if_pos empty]
        refine (and_iff_left fun found pte same _ some => ?_).symm
        cases same
        exact absurd empty some
      · rw [if_neg empty]
        cases grants : heap.grants lba
            (padToBlocksize (GptHeader.decode buffer).entryBytes dev) with
        | false =>
          rw [Bool.not_false, if_pos rfl]
          refine (and_iff_left fun found pte same _ _ right => ?_).symm
          cases same
          rw [grants] at right
          cases right
        | true =>
          rw [Bool.not_true, if_neg Bool.false_ne_true]
          cases entries : blockRead dev disk (lbaint (GptHeader.decode buffer).partitionEntryLba)
              (blockCnt (GptHeader.decode buffer).entryBytes dev) with
          | none =>
            refine (and_iff_left fun found pte same _ _ _ right => ?_).symm
            cases same
            rw [entries] at right
            cases right
          | some pte =>
            have table := @tableAccesses_inside dev (GptHeader.decode buffer).entryBytes
            have second : (∀ found pte, some buffer = some found →
                validateGptHeader dev found (lbaint lba) dev.lba = true →
                (GptHeader.decode found).entryBytes ≠ 0 →
                heap.grants lba (padToBlocksize (GptHeader.decode found).entryBytes dev) = true →
                blockRead dev disk (lbaint (GptHeader.decode found).partitionEntryLba)
                  (blockCnt (GptHeader.decode found).entryBytes dev) = some pte →
                  blockCnt (GptHeader.decode found).entryBytes dev * dev.blksz < 2 ^ 32) ↔
                blockCnt (GptHeader.decode buffer).entryBytes dev * dev.blksz < 2 ^ 32 :=
              ⟨fun all => all buffer pte rfl valid empty grants entries,
                fun fits found pte same _ _ _ _ => by cases same; exact fits⟩
            rw [second, ← table, ← allInside_append]
            dsimp only
            split <;> rfl

variable {h : GptHeader} {pte : List UInt8}

/-- A table that is found has whole blocks. -/
theorem isGptValidAt_some (found : (isGptValidAt dev disk heap lba).1 = some (h, pte)) :
    pte.length = blockCnt h.entryBytes dev * dev.blksz ∧
      (TableFits dev disk heap lba → padToBlocksize h.entryBytes dev = pte.length) := by
  unfold isGptValidAt at found
  cases read : blockRead dev disk (lbaint lba) 1 with
  | none =>
    rw [read] at found
    cases found
  | some buffer =>
    rw [read] at found
    dsimp only at found
    split at found
    · cases found
    · next valid =>
      split at found
      · cases found
      · next some =>
        split at found
        · cases found
        · next grants =>
          cases entries : blockRead dev disk (lbaint (GptHeader.decode buffer).partitionEntryLba)
              (blockCnt (GptHeader.decode buffer).entryBytes dev) with
          | none =>
            rw [entries] at found
            cases found
          | some bytes =>
            rw [entries] at found
            dsimp only at found
            split at found
            · cases found
              have size : pte.length =
                  blockCnt (GptHeader.decode buffer).entryBytes dev * dev.blksz := by
                unfold blockRead at entries
                split at entries
                · cases entries
                  exact Memory.length_load _ _ _
                · cases entries
              refine ⟨size, fun fits => ?_⟩
              rw [size, padToBlocksize]
              exact Nat.mod_eq_of_lt (fits buffer pte read (by simpa using valid) some
                (by simpa using grants) entries)
            · cases found

/-- What is read of the header in block 1, and of the one in the last block where it is not valid,
fits. -/
def HeadersFit (dev : BlockDev) (disk : Memory) (heap : GptHeap) : Prop :=
  (HeaderFits dev disk 1 ∧ TableFits dev disk heap 1) ∧
    ((isGptValidAt dev disk heap 1).1 = none →
      HeaderFits dev disk (backupLba dev) ∧ TableFits dev disk heap (backupLba dev))

theorem firstValid_some {primary backup : Option (GptHeader × List UInt8) × List GptAccess}
    {found : GptHeader × List UInt8} (valid : primary.1 = some found) :
    firstValid primary backup = (primary.1, primary.2) := by
  rw [firstValid, valid]

theorem firstValid_none {primary backup : Option (GptHeader × List UInt8) × List GptAccess}
    (valid : primary.1 = none) :
    (firstValid primary backup).1 = backup.1 ∧
      (firstValid primary backup).2 = primary.2 ++ backup.2 := by
  rw [firstValid, valid]
  exact ⟨rfl, rfl⟩

theorem gptOf_primary {found : GptHeader × List UInt8}
    (primary : (isGptValidAt dev disk heap 1).1 = some found) :
    gptOf dev disk heap = isGptValidAt dev disk heap 1 :=
  firstValid_some primary

theorem gptOf_backup (primary : (isGptValidAt dev disk heap 1).1 = none) :
    (gptOf dev disk heap).1 = (isGptValidAt dev disk heap (backupLba dev)).1 ∧
      (gptOf dev disk heap).2 = (isGptValidAt dev disk heap 1).2 ++
        (isGptValidAt dev disk heap (backupLba dev)).2 :=
  firstValid_none primary

theorem gptOf_inside (dev : BlockDev) (disk : Memory) (heap : GptHeap) :
    AllInside dev (gptOf dev disk heap).2 ↔ HeadersFit dev disk heap := by
  unfold HeadersFit
  cases primary : (isGptValidAt dev disk heap 1).1 with
  | some found =>
    rw [gptOf_primary primary, isGptValidAt_inside]
    exact (and_iff_left fun none => by cases none).symm
  | none =>
    rw [(gptOf_backup primary).2, allInside_append, isGptValidAt_inside, isGptValidAt_inside]
    exact and_congr_right fun _ => (imp_iff_right rfl).symm

theorem gptOf_some (found : (gptOf dev disk heap).1 = some (h, pte))
    (fits : HeadersFit dev disk heap) :
    padToBlocksize h.entryBytes dev = pte.length := by
  cases primary : (isGptValidAt dev disk heap 1).1 with
  | some first =>
    rw [gptOf_primary primary] at found
    exact (isGptValidAt_some found).2 fits.1.2
  | none =>
    rw [(gptOf_backup primary).1] at found
    exact (isGptValidAt_some found).2 (fits.2 primary).2

/-! ## Entries -/

def pteAt (pte : List UInt8) (i : Nat) : GptEntry :=
  GptEntry.decode (bytesAt pte (i * gptEntryBytes) gptEntryBytes)

/-- An entry lies in the table as far as it is read. -/
def EntryInside (pte : List UInt8) (i : Nat) : Prop :=
  i * gptEntryBytes + 16 ≤ pte.length ∧
    (isPteValid (pteAt pte i) = true → i * gptEntryBytes + gptEntryBytes ≤ pte.length)

/-- The name of an entry that is used fits `info->name`. -/
def NameFits (dev : BlockDev) (pte : List UInt8) (i : Nat) : Prop :=
  isPteValid (pteAt pte i) = true → (infoOf dev (pteAt pte i)).name.length < 32

/-- The entries that are shown, and the unused one behind them, lie in the table. -/
def ShownInside (pte : List UInt8) (n i : Nat) : Prop :=
  ∀ k < n, (∀ j < k, isPteValid (pteAt pte (i + j)) = true) → EntryInside pte (i + k)

theorem load_table (heap : GptHeap) (pte : List UInt8) {a n k : Nat} (inside : a + k ≤ pte.length)
    (less : k ≤ n) :
    bytesAt ((heap.behind.store 0 pte).load a n) 0 k = bytesAt (bytesAt pte a n) 0 k := by
  have whole : (heap.behind.store 0 pte).load 0 pte.length = pte :=
    (Memory.store_holds _ _ _).load
  have table : bytesAt pte a n = (heap.behind.store 0 pte).load a (min n (pte.length - a)) := by
    rw [← whole, bytesAt, Memory.drop_load, Memory.take_load, Nat.zero_add, whole]
  rw [table, bytesAt, bytesAt, List.drop_zero, List.drop_zero, Memory.take_load, Memory.take_load]
  congr 1
  omega

theorem isPteValid_entryAt (heap : GptHeap) {i : Nat} (inside : i * gptEntryBytes + 16 ≤ pte.length)
    :
    isPteValid (entryAt heap pte i) = isPteValid (pteAt pte i) := by
  have type := load_table heap pte inside (show 16 ≤ gptEntryBytes by decide)
  have guid : (entryAt heap pte i).partitionTypeGuid = (pteAt pte i).partitionTypeGuid := by
    simp only [entryAt, pteAt, GptEntry.decode, guidAt, type]
  rw [isPteValid, isPteValid, guid]

theorem entryAt_eq (heap : GptHeap) {i : Nat}
    (inside : i * gptEntryBytes + gptEntryBytes ≤ pte.length) :
    entryAt heap pte i = pteAt pte i := by
  have entry := load_table heap pte inside (Nat.le_refl _)
  have left : bytesAt ((heap.behind.store 0 pte).load (i * gptEntryBytes) gptEntryBytes) 0
      gptEntryBytes = (heap.behind.store 0 pte).load (i * gptEntryBytes) gptEntryBytes := by
    rw [bytesAt, List.drop_zero, List.take_of_length_le (by rw [Memory.length_load])]
  have right : bytesAt (bytesAt pte (i * gptEntryBytes) gptEntryBytes) 0 gptEntryBytes =
      bytesAt pte (i * gptEntryBytes) gptEntryBytes := by
    rw [bytesAt, List.drop_zero, bytesAt, List.take_take, Nat.min_self]
  rw [entryAt, ← left, entry, right, pteAt]

theorem inside_table (whole : padToBlocksize h.entryBytes dev = pte.length) (start length : Nat) :
    GptAccess.Inside dev ⟨h.table dev, start, length⟩ ↔ start + length ≤ pte.length := by
  rw [← whole]
  rfl

theorem infoAccesses_inside {info : PartitionInfo} :
    AllInside dev (infoAccesses info) ↔ info.name.length < 32 := by
  have type : GptAccess.Inside dev ⟨.infoType, 0, 7⟩ := show 0 + 7 ≤ 32 by decide
  have uuid : GptAccess.Inside dev ⟨.infoUuid, 0, 37⟩ := show 0 + 37 ≤ 37 by decide
  rw [infoAccesses, allInside_cons, allInside_cons, allInside_cons, and_iff_left allInside_nil,
    and_iff_left uuid, and_iff_left type, GptAccess.Inside, Nat.zero_add]
  rfl

/-- The ranges of `get_partition_info_efi` lie in their buffers. -/
theorem partitionInfoAccesses_inside (dev : BlockDev) (disk : Memory) (heap : GptHeap) (part : Nat)
    :
    AllInside dev (partitionInfoAccesses dev disk heap part).2 ↔
      part < 1 ∨ HeadersFit dev disk heap ∧
        ∀ h pte, (gptOf dev disk heap).1 = some (h, pte) → part ≤ h.numPartitionEntries →
          EntryInside pte (part - 1) ∧ NameFits dev pte (part - 1) := by
  unfold partitionInfoAccesses
  by_cases zero : part < 1
  · rw [if_pos zero]
    exact iff_of_true allInside_nil (.inl zero)
  · rw [if_neg zero, or_iff_right zero]
    dsimp only
    cases found : (gptOf dev disk heap).1 with
    | none =>
      dsimp only
      rw [gptOf_inside]
      exact (and_iff_left fun _ _ none => by cases none).symm
    | some gpt =>
      obtain ⟨h, pte⟩ := gpt
      have only : (∀ g bytes, some (h, pte) = some (g, bytes) → part ≤ g.numPartitionEntries →
          EntryInside bytes (part - 1) ∧ NameFits dev bytes (part - 1)) ↔
          (part ≤ h.numPartitionEntries →
            EntryInside pte (part - 1) ∧ NameFits dev pte (part - 1)) :=
        ⟨fun all => all h pte rfl, fun fits g bytes same => by cases same; exact fits⟩
      dsimp only
      rw [only]
      by_cases many : part > h.numPartitionEntries
      · rw [if_pos many, gptOf_inside]
        exact (and_iff_left fun few => absurd many (Nat.not_lt.mpr few)).symm
      · rw [if_neg many, imp_iff_right (Nat.not_lt.mp many)]
        cases valid : isPteValid (entryAt heap pte (part - 1)) with
        | false =>
          rw [Bool.not_false, if_pos rfl]
          dsimp only
          rw [allInside_append, allInside_cons, and_iff_left allInside_nil, gptOf_inside]
          refine and_congr_right fun fits => ?_
          rw [inside_table (gptOf_some found fits), EntryInside, NameFits, and_assoc]
          refine (and_iff_left_of_imp fun inside => ?_).symm
          rw [← isPteValid_entryAt heap inside, valid]
          constructor
          · rintro ⟨⟩
          · rintro ⟨⟩
        | true =>
          rw [Bool.not_true, if_neg Bool.false_ne_true]
          dsimp only
          rw [allInside_append, allInside_append, allInside_cons, and_iff_left allInside_nil,
            gptOf_inside, and_assoc, allInside_cons, infoAccesses_inside]
          refine and_congr_right fun fits => ?_
          rw [inside_table (gptOf_some found fits), inside_table (gptOf_some found fits),
            EntryInside, NameFits, and_assoc]
          refine and_congr_right fun inside => ?_
          rw [← isPteValid_entryAt heap inside, valid, imp_iff_right rfl, imp_iff_right rfl]
          exact and_congr_right fun whole => by rw [entryAt_eq heap whole]

/-- The ranges of the loop of `print_part_efi` lie in the table. -/
theorem printEntries_inside (heap : GptHeap) (whole : padToBlocksize h.entryBytes dev = pte.length)
    (n i : Nat) :
    AllInside dev (printEntries (h.table dev) (entryAt heap pte) n i).2 ↔
      ShownInside pte n i := by
  induction n generalizing i with
  | zero => exact iff_of_true allInside_nil fun k less => absurd less (Nat.not_lt_zero k)
  | succ n ih =>
    have split : ShownInside pte (n + 1) i ↔ EntryInside pte i ∧
        (isPteValid (pteAt pte i) = true → ShownInside pte n (i + 1)) := by
      unfold ShownInside
      rw [Nat.forall_lt_succ_left]
      refine and_congr (imp_iff_right fun j none => absurd none (Nat.not_lt_zero j)) ?_
      simp only [Nat.forall_lt_succ_left, Nat.add_zero, Nat.add_assoc, Nat.add_comm 1]
      constructor
      · intro later used k less all
        exact later k less ⟨used, all⟩
      · rintro later k less ⟨used, all⟩
        exact later used k less all
    rw [split, printEntries]
    cases valid : isPteValid (entryAt heap pte i) with
    | false =>
      rw [Bool.not_false, if_pos rfl]
      dsimp only
      rw [allInside_cons, and_iff_left allInside_nil, inside_table whole, EntryInside, and_assoc]
      refine (and_iff_left_of_imp fun inside => ?_).symm
      rw [← isPteValid_entryAt heap inside, valid]
      constructor
      · rintro ⟨⟩
      · rintro ⟨⟩
    | true =>
      rw [Bool.not_true, if_neg Bool.false_ne_true]
      dsimp only
      rw [allInside_cons, allInside_cons, inside_table whole, inside_table whole, ih,
        EntryInside, and_assoc]
      refine and_congr_right fun inside => ?_
      rw [← isPteValid_entryAt heap inside, valid, imp_iff_right rfl, imp_iff_right rfl]

theorem printPartEfi_inside (dev : BlockDev) (disk : Memory) (heap : GptHeap) :
    AllInside dev (printPartEfi dev disk heap).2 ↔ HeadersFit dev disk heap ∧
      ∀ h pte, (gptOf dev disk heap).1 = some (h, pte) →
        ShownInside pte h.numPartitionEntries 0 := by
  unfold printPartEfi
  dsimp only
  cases found : (gptOf dev disk heap).1 with
  | none =>
    dsimp only
    rw [gptOf_inside]
    exact (and_iff_left fun _ _ none => by cases none).symm
  | some gpt =>
    obtain ⟨h, pte⟩ := gpt
    have only : (∀ g bytes, some (h, pte) = some (g, bytes) →
        ShownInside bytes g.numPartitionEntries 0) ↔ ShownInside pte h.numPartitionEntries 0 :=
      ⟨fun all => all h pte rfl, fun fits g bytes same => by cases same; exact fits⟩
    dsimp only
    rw [only, allInside_append, gptOf_inside]
    exact and_congr_right fun fits => printEntries_inside heap (gptOf_some found fits) _ 0

/-! ## The partition that is reported -/

theorem isGptValidAt_eq (grants : ∀ lba size, heap.grants lba size = true) (lba : Nat) :
    (isGptValidAt dev disk heap lba).1 = isGptValid dev disk lba := by
  unfold isGptValidAt isGptValid
  cases blockRead dev disk (lbaint lba) 1 with
  | none => rfl
  | some buffer =>
    rw [Option.bind_eq_bind, Option.bind_some]
    dsimp only
    cases validateGptHeader dev buffer (lbaint lba) dev.lba with
    | false => rfl
    | true =>
      rw [Bool.not_true, if_neg Bool.false_ne_true, if_pos rfl, allocReadGptEntries]
      by_cases empty : (GptHeader.decode buffer).entryBytes = 0
      · rw [if_pos empty, if_pos empty]
        rfl
      · rw [if_neg empty, if_neg empty, grants, Bool.not_true, if_neg Bool.false_ne_true]
        cases blockRead dev disk (lbaint (GptHeader.decode buffer).partitionEntryLba)
            (blockCnt (GptHeader.decode buffer).entryBytes dev) with
        | none => rfl
        | some pte =>
          rw [Option.bind_some]
          dsimp only
          split <;> rfl

theorem gptOf_eq (grants : ∀ lba size, heap.grants lba size = true) :
    (gptOf dev disk heap).1 =
      (isGptValid dev disk 1).or (isGptValid dev disk (backupLba dev)) := by
  rw [← isGptValidAt_eq grants, ← isGptValidAt_eq grants]
  cases primary : (isGptValidAt dev disk heap 1).1 with
  | some found => rw [gptOf_primary primary, primary, Option.some_or]
  | none => rw [(gptOf_backup primary).1, Option.none_or]

theorem partitionInfoAccesses_eq (grants : ∀ lba size, heap.grants lba size = true) {part : Nat}
    (inside : AllInside dev (partitionInfoAccesses dev disk heap part).2) :
    (partitionInfoAccesses dev disk heap part).1 = getPartitionInfoEfi dev disk part := by
  have fits := (partitionInfoAccesses_inside dev disk heap part).mp inside
  unfold partitionInfoAccesses getPartitionInfoEfi
  by_cases zero : part < 1
  · rw [if_pos zero, if_pos zero]
  · rw [if_neg zero, if_neg zero]
    have entry := (fits.resolve_left zero).2
    have same := @gptOf_eq dev disk heap grants
    rw [backupLba] at same
    rw [← same]
    dsimp only
    cases found : (gptOf dev disk heap).1 with
    | none => rfl
    | some gpt =>
      obtain ⟨h, pte⟩ := gpt
      dsimp only
      by_cases many : part > h.numPartitionEntries
      · rw [if_pos many, if_pos (.inl many)]
      · have type := (entry h pte found (Nat.not_lt.mp many)).1
        rw [if_neg many, isPteValid_entryAt heap type.1]
        cases valid : isPteValid (pteAt pte (part - 1)) with
        | false =>
          rw [pteAt] at valid
          rw [Bool.not_false, if_pos rfl, if_pos (.inr (by rw [valid]; exact Bool.false_ne_true))]
        | true =>
          rw [Bool.not_true, if_neg Bool.false_ne_true, entryAt_eq heap (type.2 valid)]
          rw [pteAt] at valid
          rw [if_neg (not_or.mpr ⟨many, not_not.mpr valid⟩), pteAt]

/-! ## Where everything is inside -/

/-- The ranges of both functions lie in their buffers exactly where a header behind a right
signature states a length that fits a block, the table fits a `size_t`, and the entries that are
read lie in the table and have names that fit `info->name`. -/
theorem gpt_accesses_inside_iff (dev : BlockDev) (disk : Memory) (heap : GptHeap) :
    (∀ part, AllInside dev (partitionInfoAccesses dev disk heap part).2 ↔
      part < 1 ∨ HeadersFit dev disk heap ∧
        ∀ h pte, (gptOf dev disk heap).1 = some (h, pte) → part ≤ h.numPartitionEntries →
          EntryInside pte (part - 1) ∧ NameFits dev pte (part - 1)) ∧
    (AllInside dev (printPartEfi dev disk heap).2 ↔ HeadersFit dev disk heap ∧
      ∀ h pte, (gptOf dev disk heap).1 = some (h, pte) →
        ShownInside pte h.numPartitionEntries 0) :=
  ⟨partitionInfoAccesses_inside dev disk heap, printPartEfi_inside dev disk heap⟩

/-- A disk whose header has the right signature and the greatest length. -/
def longHeaderDisk : Memory :=
  Memory.blank.store 512 [69, 70, 73, 32, 80, 65, 82, 84, 0, 0, 1, 0, 255, 255, 255, 255]

def fourBlocks : BlockDev := ⟨512, 4, Memory.blank, by decide, by decide⟩

def wholeHeap : GptHeap := ⟨fun _ _ => true, Memory.blank⟩

theorem longHeader_outside :
    ¬HeadersFit fourBlocks longHeaderDisk wholeHeap := by
  intro fits
  have signature : (GptHeader.decode (longHeaderDisk.load 512 512)).signature =
      gptHeaderSignature := by decide +kernel
  have size : ¬(GptHeader.decode (longHeaderDisk.load 512 512)).headerSize ≤ 512 := by
    decide +kernel
  exact size (fits.1.1 _ rfl signature)

/-- Both functions read it there. -/
theorem longHeader_reads_outside :
    ¬AllInside fourBlocks (partitionInfoAccesses fourBlocks longHeaderDisk wholeHeap 1).2 ∧
      ¬AllInside fourBlocks (printPartEfi fourBlocks longHeaderDisk wholeHeap).2 := by
  rw [partitionInfoAccesses_inside, printPartEfi_inside]
  refine ⟨?_, fun fits => longHeader_outside fits.1⟩
  rintro (none | fits)
  · exact absurd none (Nat.lt_irrefl 1)
  · exact longHeader_outside fits.1

end HrppBoot.Disk
