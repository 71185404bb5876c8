import HrppBoot.Disk.Gpt

/-!
# Partitions restored

A table that `gpt_restore` wrote is read back by `get_partition_info_efi`, from the primary copy
and from the backup.
-/

namespace HrppBoot.Disk

open ByteMemory LittleEndian

/-! ## Records read back -/

@[simp] theorem Guid.length_bytes (guid : Guid) : guid.bytes.length = 16 := guid.sized

theorem guidAt_first (guid : Guid) (rest : List UInt8) : guidAt (guid.bytes ++ rest) 0 = guid := by
  apply Guid.ext
  simp only [guidAt]
  rw [bytesAt_first rest guid.sized, List.takeD_eq_take _ (by simp),
    List.take_of_length_le (by simp)]

variable {offset : Nat}

theorem guidAt_skip {first : List UInt8} (rest : List UInt8) (behind : first.length ≤ offset) :
    guidAt (first ++ rest) offset = guidAt rest (offset - first.length) := by
  simp only [guidAt, bytesAt_skip rest behind]

/-- The numbers of a header fit their fields. -/
structure GptHeader.Fits (h : GptHeader) : Prop where
  signature : h.signature < 2 ^ 64
  revision : h.revision < 2 ^ 32
  headerSize : h.headerSize < 2 ^ 32
  headerCrc32 : h.headerCrc32 < 2 ^ 32
  reserved1 : h.reserved1 < 2 ^ 32
  myLba : h.myLba < 2 ^ 64
  alternateLba : h.alternateLba < 2 ^ 64
  firstUsableLba : h.firstUsableLba < 2 ^ 64
  lastUsableLba : h.lastUsableLba < 2 ^ 64
  partitionEntryLba : h.partitionEntryLba < 2 ^ 64
  numPartitionEntries : h.numPartitionEntries < 2 ^ 32
  sizeofPartitionEntry : h.sizeofPartitionEntry < 2 ^ 32
  partitionEntryArrayCrc32 : h.partitionEntryArrayCrc32 < 2 ^ 32

@[simp] theorem GptHeader.length_encode (h : GptHeader) : h.encode.length = gptHeaderBytes := by
  simp [encode, gptHeaderBytes]

theorem field_eight {number : Nat} (rest : List UInt8) (fits : number < 2 ^ 64) :
    field (leBytes 8 number ++ rest) 0 8 = number := field_first rest fits

theorem field_four {number : Nat} (rest : List UInt8) (fits : number < 2 ^ 32) :
    field (leBytes 4 number ++ rest) 0 4 = number := field_first rest fits

theorem GptHeader.decode_encode {h : GptHeader} (fits : h.Fits) (rest : List UInt8) :
    decode (h.encode ++ rest) = h := by
  have signature := fits.signature
  have revision := fits.revision
  have headerSize := fits.headerSize
  have headerCrc32 := fits.headerCrc32
  have reserved1 := fits.reserved1
  have myLba := fits.myLba
  have alternateLba := fits.alternateLba
  have firstUsableLba := fits.firstUsableLba
  have lastUsableLba := fits.lastUsableLba
  have partitionEntryLba := fits.partitionEntryLba
  have numPartitionEntries := fits.numPartitionEntries
  have sizeofPartitionEntry := fits.sizeofPartitionEntry
  have partitionEntryArrayCrc32 := fits.partitionEntryArrayCrc32
  apply GptHeader.ext <;>
    simp only [decode, encode, List.append_assoc, field_skip, guidAt_skip, length_leBytes,
      Guid.length_bytes, Nat.reduceLeDiff, Nat.reduceSub, field_eight, field_four, guidAt_first, *]

/-- The numbers of an entry fit their fields. -/
structure GptEntry.Fits (e : GptEntry) : Prop where
  startingLba : e.startingLba < 2 ^ 64
  endingLba : e.endingLba < 2 ^ 64
  attributes : e.attributes < 2 ^ 64
  partitionName : ∀ c ∈ e.partitionName, c < 2 ^ 16

@[simp] theorem GptEntry.length_encode (e : GptEntry) : e.encode.length = gptEntryBytes := by
  have name := length_array (leBytes 2) (length_leBytes 2) e.partitionName
  rw [e.named] at name
  simp [encode, name, gptEntryBytes, partnameSz]

theorem name_read_back {name : List Nat} (fits : ∀ c ∈ name, c < 2 ^ 16) (rest : List UInt8) :
    (List.range name.length).map (fun k => field (name.flatMap (leBytes 2) ++ rest) (2 * k) 2) =
      name := by
  refine List.ext_getElem (by simp) fun k left right => ?_
  simp only [List.getElem_map, List.getElem_range]
  rw [field, Nat.mul_comm, bytesAt_flatMap (leBytes 2) (length_leBytes 2) name rest k right]
  exact leValue_leBytes (fits _ (List.getElem_mem right))

theorem GptEntry.decode_encode {e : GptEntry} (fits : e.Fits) (rest : List UInt8) :
    decode (e.encode ++ rest) = e := by
  have startingLba := fits.startingLba
  have endingLba := fits.endingLba
  have attributes := fits.attributes
  apply GptEntry.ext
  case partitionName =>
    have name := name_read_back fits.partitionName rest
    rw [e.named] at name
    simp only [decode, encode, List.append_assoc]
    refine Eq.trans (List.map_congr_left fun k _ => ?_) name
    rw [field_skip _ (by simp; omega), field_skip _ (by simp; omega), field_skip _ (by simp; omega),
      field_skip _ (by simp; omega), field_skip _ (by simp; omega)]
    congr 1
    simp only [Guid.length_bytes, length_leBytes]
    omega
  all_goals
    simp only [decode, encode, List.append_assoc, field_skip, guidAt_skip, length_leBytes,
      Guid.length_bytes, Nat.reduceLeDiff, Nat.reduceSub, field_eight, guidAt_first, *]

/-! ## Layout -/

/-- Where a partition begins: at its own start, or behind the one before it. -/
def DiskPartition.startFrom (p : DiskPartition) (offset : Nat) : Nat :=
  if p.start ≠ 0 then p.start else offset

/-- The end of no partition passes the largest `lbaint_t`. -/
def EndsFit : Nat → List DiskPartition → Prop
  | _, [] => True
  | offset, p :: rest =>
    p.startFrom offset + p.size < 2 ^ 32 ∧ EndsFit (p.startFrom offset + p.size) rest

/-- Starts and sizes as they were asked for: a start of zero is the end of the partition before,
and a size of zero at the end of the list is the rest of the disk. -/
def requested (lastUsable : Nat) : Nat → List DiskPartition → List (Nat × Nat)
  | _, [] => []
  | offset, p :: rest =>
    let start := p.startFrom offset
    (start, if rest = [] ∧ p.size = 0 then lastUsable + 1 - start else p.size) ::
      requested lastUsable (start + p.size) rest

@[simp] theorem length_requested (lastUsable offset : Nat) (partitions : List DiskPartition) :
    (requested lastUsable offset partitions).length = partitions.length := by
  induction partitions generalizing offset with
  | nil => rfl
  | cons p rest ih => simp [requested, ih]

/-- The last block `gpt_fill_pte` writes for a partition that ends before `next`. -/
def endingLba (lastUsable next : Nat) (p : DiskPartition) (rest : List DiskPartition) : Nat :=
  if rest = [] ∧ p.size = 0 then lastUsable else lbaint (next + 2 ^ 32 - 1)

theorem fillPteLoop_cons {lastUsable : Nat} {p : DiskPartition} {rest : List DiskPartition}
    {entries : List GptEntry} (filled : fillPteLoop lastUsable offset (p :: rest) = some entries) :
    ∃ guid later,
      (p.start = 0 ∨ offset ≤ p.start) ∧
      lbaint (p.startFrom offset + p.size) < lbaint lastUsable ∧
      fillPteLoop lastUsable (lbaint (p.startFrom offset + p.size)) rest = some later ∧
      entries = fillEntry p guid (p.startFrom offset)
        (endingLba lastUsable (lbaint (p.startFrom offset + p.size)) p rest) :: later := by
  have begins : (if p.start ≠ 0 then p.start else offset) = p.startFrom offset := rfl
  simp only [fillPteLoop, begins] at filled
  split at filled
  case isTrue => cases filled
  case isFalse apart =>
    split at filled
    case isTrue => cases filled
    case isFalse below =>
      split at filled
      case h_1 => cases filled
      case h_2 guid known =>
        split at filled
        case h_1 => cases filled
        case h_2 later more =>
          obtain rfl := Option.some.inj filled
          exact ⟨guid, later, by omega, by omega, more, rfl⟩

theorem lbaint_of_lt {x : Nat} (small : x < 2 ^ 32) : lbaint x = x := Nat.mod_eq_of_lt small

theorem lbaint_lt (x : Nat) : lbaint x < 2 ^ 32 := Nat.mod_lt _ (by decide)

theorem shown_eq_zero (c : UInt8) : shown c = 0 ↔ c = 0 := by
  unfold shown
  split
  case isTrue other => simp [other.1]
  case isFalse => rfl

theorem cString_printEfiname (p : DiskPartition) (guid : Guid) (start ending : Nat) :
    cString (printEfiname (fillEntry p guid start ending)) = (cString p.name).map shown := by
  have zeros : [0, 0, 0, 0].map (fun c => shown (UInt8.ofNat c)) = [0, 0, 0, 0] := by decide
  have whole : printEfiname (fillEntry p guid start ending) = p.name.map shown ++ [0, 0, 0, 0] := by
    simp only [printEfiname, fillEntry, List.map_append, zeros, List.map_map]
    congr 1
    apply List.map_congr_left
    intro c _
    simp
  rw [whole]
  unfold cString
  induction p.name with
  | nil => rfl
  | cons c rest ih =>
    by_cases zero : c = 0
    · simp [zero, shown]
    · have visible : shown c ≠ 0 := mt (shown_eq_zero c).mp zero
      simpa [zero, visible] using ih

theorem infoOf_extent (dev : BlockDev) {e : GptEntry} (positive : 0 < e.startingLba)
    (ordered : e.startingLba ≤ e.endingLba + 1) (narrow : e.endingLba < 2 ^ 32)
    (begins : e.startingLba < 2 ^ 32) :
    ((infoOf dev e).start, (infoOf dev e).size) =
      (e.startingLba, e.endingLba + 1 - e.startingLba) := by
  have size : e.endingLba + 1 + 2 ^ 32 - e.startingLba =
      e.endingLba + 1 - e.startingLba + 2 ^ 32 := by omega
  have small : e.endingLba + 1 - e.startingLba < 2 ^ 32 := by omega
  simp only [infoOf, lbaint_of_lt begins, lbaint_of_lt narrow, size, Prod.mk.injEq, true_and]
  rw [lbaint, Nat.add_mod_right, Nat.mod_eq_of_lt small]

/-- What a filled table has: an entry for each partition, in order and apart, inside the usable
blocks, and reported as it was asked for. -/
structure Laid (dev : BlockDev) (lastUsable offset : Nat) (partitions : List DiskPartition)
    (entries : List GptEntry) : Prop where
  count : entries.length = partitions.length
  inside : ∀ e ∈ entries, offset ≤ e.startingLba ∧ e.startingLba ≤ lastUsable ∧
    e.endingLba ≤ lastUsable
  ordered : entries.Pairwise (·.endingLba < ·.startingLba)
  extents : entries.map (fun e => ((infoOf dev e).start, (infoOf dev e).size)) =
    requested lastUsable offset partitions
  names : entries.map (fun e => (infoOf dev e).name) =
    partitions.map fun p => (cString p.name).map shown
  usable : ∀ e ∈ entries, e.Fits ∧ isPteValid e

theorem fillEntry_usable (p : DiskPartition) (guid : Guid) {start ending : Nat}
    (startFits : start < 2 ^ 64) (endingFits : ending < 2 ^ 64) :
    (fillEntry p guid start ending).Fits ∧ isPteValid (fillEntry p guid start ending) := by
  refine ⟨⟨startFits, endingFits, by simp [fillEntry], fun c member => ?_⟩, rfl⟩
  simp only [fillEntry, List.mem_append, List.mem_map] at member
  rcases member with ⟨byte, -, rfl⟩ | zero
  · exact lt_trans byte.toNat_lt (by decide)
  · simp_all

theorem endingLba_cases {lastUsable next : Nat} {p : DiskPartition} {rest : List DiskPartition}
    (positive : 0 < next) (narrow : next < 2 ^ 32) :
    (rest = [] ∧ p.size = 0) ∧ endingLba lastUsable next p rest = lastUsable ∨
    ¬(rest = [] ∧ p.size = 0) ∧ endingLba lastUsable next p rest + 1 = next := by
  unfold endingLba
  split
  case isTrue whole => exact Or.inl ⟨whole, rfl⟩
  case isFalse given =>
    have moved : next + 2 ^ 32 - 1 = next - 1 + 2 ^ 32 := by omega
    rw [moved, lbaint, Nat.add_mod_right, Nat.mod_eq_of_lt (by omega)]
    exact Or.inr ⟨given, by omega⟩

/-- `gpt_fill_pte` lays out what it accepts, as long as no end passes the largest `lbaint_t`. -/
theorem fillPteLoop_laid (dev : BlockDev) {lastUsable : Nat} (narrow : lastUsable < 2 ^ 32)
    (partitions : List DiskPartition) {entries : List GptEntry} (positive : 0 < offset)
    (fits : EndsFit offset partitions)
    (filled : fillPteLoop lastUsable offset partitions = some entries) :
    Laid dev lastUsable offset partitions entries := by
  induction partitions generalizing offset entries with
  | nil =>
    obtain rfl := Option.some.inj filled
    constructor <;> simp [requested]
  | cons p rest ih =>
    obtain ⟨guid, later, apart, below, more, rfl⟩ := fillPteLoop_cons filled
    obtain ⟨ends, fits⟩ := fits
    have behind : offset ≤ p.startFrom offset := by
      unfold DiskPartition.startFrom
      split <;> omega
    rw [lbaint_of_lt ends] at more below ⊢
    rw [lbaint_of_lt narrow] at below
    have laid := ih (by omega) fits more
    have cases := @endingLba_cases lastUsable _ p rest (by omega) ends
    generalize start : p.startFrom offset = begins at *
    generalize endingLba lastUsable (begins + p.size) p rest = ending at *
    have bounded : begins ≤ ending + 1 ∧ ending ≤ lastUsable := by
      rcases cases with ⟨-, whole⟩ | ⟨-, given⟩ <;> omega
    have sized : (if rest = [] ∧ p.size = 0 then lastUsable + 1 - begins else p.size) =
        ending + 1 - begins := by
      rcases cases with ⟨last, whole⟩ | ⟨last, given⟩
      · rw [if_pos last, whole]
      · rw [if_neg last]
        omega
    have before : rest = [] ∨ ending < begins + p.size := by
      rcases cases with ⟨last, -⟩ | ⟨-, given⟩
      · exact Or.inl last.1
      · exact Or.inr (by omega)
    constructor
    case count => simp [laid.count]
    case inside =>
      intro e member
      rcases List.mem_cons.mp member with rfl | member
      · exact ⟨behind, by simp only [fillEntry]; omega, bounded.2⟩
      · obtain ⟨low, high⟩ := laid.inside e member
        exact ⟨by omega, high⟩
    case ordered =>
      refine List.pairwise_cons.mpr ⟨fun e member => ?_, laid.ordered⟩
      have low := (laid.inside e member).1
      rcases before with none | early
      · have nothing : later = [] := List.eq_nil_of_length_eq_zero (by rw [laid.count, none]; rfl)
        simp [nothing] at member
      · exact lt_of_lt_of_le early low
    case extents =>
      have extent := @infoOf_extent dev (fillEntry p guid begins ending)
        (by simp only [fillEntry]; omega) bounded.1 (by simp only [fillEntry]; omega)
        (by simp only [fillEntry]; omega)
      simp only [List.map_cons, requested, start, sized, laid.extents, extent]
      rfl
    case names =>
      rw [List.map_cons, List.map_cons, laid.names]
      congr 1
      exact cString_printEfiname p guid begins ending
    case usable =>
      intro e member
      rcases List.mem_cons.mp member with rfl | member
      · exact fillEntry_usable p guid (by omega) (by omega)
      · exact laid.usable e member

/-! ## A table on the disk -/

/-- The bytes of the array of entries. -/
def tableBytes : Nat := gptEntryNumbers * gptEntryBytes

/-- The blocks of the array of entries. -/
def tableBlocks (dev : BlockDev) : Nat := blockCnt tableBytes dev

theorem tableBlocks_bounds (dev : BlockDev) :
    tableBytes ≤ tableBlocks dev * dev.blksz ∧ tableBlocks dev ≤ 32 ∧ 0 < tableBlocks dev := by
  have wide := dev.wide
  have few : (tableBytes - 1) / dev.blksz ≤ 31 := by
    have shorter : (tableBytes - 1) / dev.blksz ≤ (tableBytes - 1) / 512 :=
      Nat.div_le_div_left wide (by decide)
    exact le_trans shorter (by decide)
  have room : tableBytes - 1 < dev.blksz * ((tableBytes - 1) / dev.blksz + 1) :=
    Nat.lt_mul_div_succ _ (by omega)
  have some_bytes : 0 < tableBytes := by decide
  unfold tableBlocks blockCnt
  rw [Nat.mul_comm _ dev.blksz]
  generalize (tableBytes - 1) / dev.blksz = quotient at few room ⊢
  omega

theorem length_entryArray (dev : BlockDev) {entries : List GptEntry}
    (few : entries.length ≤ gptEntryNumbers) :
    (entryArray dev entries).length = tableBlocks dev * dev.blksz := by
  have room := (tableBlocks_bounds dev).1
  have array := length_array GptEntry.encode GptEntry.length_encode
    (entries ++ List.replicate (gptEntryNumbers - entries.length) GptEntry.unused)
  have full : (entries ++
      List.replicate (gptEntryNumbers - entries.length) GptEntry.unused).length =
      gptEntryNumbers := by
    simp only [List.length_append, List.length_replicate]
    omega
  rw [full] at array
  simp only [entryArray, List.length_append, array, List.length_replicate]
  unfold tableBlocks tableBytes at *
  omega

theorem bytesAt_entryArray (dev : BlockDev) (entries : List GptEntry) (index : Nat)
    (inside : index < entries.length) :
    bytesAt (entryArray dev entries) (index * gptEntryBytes) gptEntryBytes =
      entries[index].encode := by
  unfold entryArray
  rw [bytesAt_flatMap GptEntry.encode GptEntry.length_encode _ _ index
    (by rw [List.length_append]; omega)]
  rw [List.getElem_append_left inside]

/-- A header without its checksum. -/
def GptHeader.bare (h : GptHeader) : GptHeader := { h with headerCrc32 := 0 }

theorem zeroCrc_fields {first second third crc : List UInt8} (rest : List UInt8)
    (front : first.length + second.length + third.length = 16) (four : crc.length = 4) :
    zeroCrc (first ++ (second ++ (third ++ (crc ++ rest)))) =
      first ++ (second ++ (third ++ (leBytes 4 0 ++ rest))) := by
  have whole : first ++ (second ++ (third ++ (crc ++ rest))) =
      (first ++ (second ++ third)) ++ (crc ++ rest) := by simp only [List.append_assoc]
  have length : (first ++ (second ++ third)).length = 16 := by
    simp only [List.length_append]
    omega
  have taken : ((first ++ (second ++ third)) ++ (crc ++ rest)).take 16 =
      first ++ (second ++ third) := List.take_left' length
  have dropped : ((first ++ (second ++ third)) ++ (crc ++ rest)).drop 20 = rest := by
    rw [← List.append_assoc]
    exact List.drop_left' (by rw [List.length_append, length, four])
  rw [whole, zeroCrc, taken, dropped]
  simp only [List.append_assoc]
  rfl

theorem zeroCrc_encode (h : GptHeader) (rest : List UInt8) :
    zeroCrc (h.encode ++ rest) = h.bare.encode ++ rest := by
  unfold GptHeader.encode
  simp only [List.append_assoc]
  rw [zeroCrc_fields _ (by simp) (by simp)]
  rfl

/-- A header that belongs to a place on the device and to an array of entries. -/
structure Sealed (dev : BlockDev) (lba : Nat) (h : GptHeader) (pte : List UInt8) : Prop where
  fits : h.Fits
  signature : h.signature = gptHeaderSignature
  headerSize : h.headerSize = gptHeaderBytes
  headerCrc32 : h.headerCrc32 = (crc32 h.bare.encode).toNat
  myLba : h.myLba = lba
  placed : lba + 1 ≤ dev.lba
  first : h.firstUsableLba ≤ dev.lba
  last : h.lastUsableLba ≤ dev.lba
  numPartitionEntries : h.numPartitionEntries = gptEntryNumbers
  sizeofPartitionEntry : h.sizeofPartitionEntry = gptEntryBytes
  partitionEntryArrayCrc32 : h.partitionEntryArrayCrc32 = (crc32 (pte.take tableBytes)).toNat
  entriesPlaced : h.partitionEntryLba + tableBlocks dev ≤ dev.lba
  entriesFill : pte.length = tableBlocks dev * dev.blksz

/-- A header and its entries stand on the disk. -/
structure Stored (dev : BlockDev) (disk : Memory) (lba : Nat) (h : GptHeader)
    (pte : List UInt8) : Prop where
  header : disk.Holds (lba * dev.blksz) (headerBlock dev h)
  entries : disk.Holds (h.partitionEntryLba * dev.blksz) pte

@[simp] theorem length_headerBlock (dev : BlockDev) (h : GptHeader) :
    (headerBlock dev h).length = dev.blksz := by
  have wide := dev.wide
  simp only [headerBlock, List.length_append, GptHeader.length_encode, List.length_replicate,
    gptHeaderBytes]
  omega

section Reading

variable {dev : BlockDev} {disk : Memory} {lba : Nat} {h : GptHeader} {pte : List UInt8}

theorem Sealed.header_valid (right : Sealed dev lba h pte) :
    validateGptHeader dev (headerBlock dev h) lba dev.lba = true := by
  have decoded : GptHeader.decode (headerBlock dev h) = h := GptHeader.decode_encode right.fits _
  have zeroed : zeroCrc (headerBlock dev h) =
      h.bare.encode ++ List.replicate (dev.blksz - gptHeaderBytes) 0 := zeroCrc_encode h _
  have summed : (zeroCrc (headerBlock dev h) ++
      dev.behind.load 0 (h.headerSize - (headerBlock dev h).length)).take h.headerSize =
      h.bare.encode := by
    rw [zeroed, List.append_assoc, right.headerSize]
    exact List.take_left' (GptHeader.length_encode _)
  simp only [validateGptHeader, decoded, summed, right.signature, right.headerCrc32, right.myLba,
    right.first, right.last, decide_true, Bool.and_self]

theorem Sealed.entryBytes_eq (right : Sealed dev lba h pte) : h.entryBytes = tableBytes := by
  rw [GptHeader.entryBytes, right.numPartitionEntries, right.sizeofPartitionEntry]
  rfl

theorem isGptValid_of_header (right : Sealed dev lba h pte)
    (header : disk.Holds (lba * dev.blksz) (headerBlock dev h)) :
    isGptValid dev disk lba =
      let found := disk.load (h.partitionEntryLba * dev.blksz) (tableBlocks dev * dev.blksz)
      if crc32 (found.take tableBytes) = crc32 (pte.take tableBytes) then some (h, found)
      else none := by
  have narrow := dev.narrow
  have placed := right.placed
  have entriesPlaced := right.entriesPlaced
  have block : blockRead dev disk (lbaint lba) 1 = some (headerBlock dev h) := by
    have loaded := header.load
    rw [length_headerBlock] at loaded
    rw [lbaint_of_lt (by omega), blockRead, if_pos placed, Nat.one_mul, loaded]
  have decoded : GptHeader.decode (headerBlock dev h) = h := GptHeader.decode_encode right.fits _
  have read : allocReadGptEntries dev disk h =
      some (disk.load (h.partitionEntryLba * dev.blksz) (tableBlocks dev * dev.blksz)) := by
    rw [allocReadGptEntries, right.entryBytes_eq, if_neg (by decide), lbaint_of_lt (by omega),
      blockRead]
    exact if_pos entriesPlaced
  have valid : validateGptHeader dev (headerBlock dev h) (lbaint lba) dev.lba = true := by
    rw [lbaint_of_lt (by omega)]
    exact right.header_valid
  simp only [isGptValid, block, bind, Option.bind, valid, if_true, decoded, read,
    validateGptEntries, right.entryBytes_eq, right.partitionEntryArrayCrc32, decide_eq_true_eq,
    UInt32.toNat_inj]

theorem isGptValid_of_stored (right : Sealed dev lba h pte) (stands : Stored dev disk lba h pte) :
    isGptValid dev disk lba = some (h, pte) := by
  have loaded := stands.entries.load
  rw [right.entriesFill] at loaded
  rw [isGptValid_of_header right stands.header, loaded]
  exact if_pos rfl

theorem getPartitionInfoEfi_of_valid {entries : List GptEntry}
    (valid : (isGptValid dev disk 1).or (isGptValid dev disk (lbaint (dev.lba + 2 ^ 32 - 1))) =
      some (h, entryArray dev entries))
    (counted : h.numPartitionEntries = gptEntryNumbers)
    (few : entries.length ≤ gptEntryNumbers) (usable : ∀ e ∈ entries, e.Fits ∧ isPteValid e)
    {index : Nat} (inside : index < entries.length) :
    getPartitionInfoEfi dev disk (index + 1) = some (infoOf dev entries[index]) := by
  obtain ⟨fits, used⟩ := usable _ (List.getElem_mem inside)
  have entry : GptEntry.decode (bytesAt (entryArray dev entries) (index * gptEntryBytes)
      gptEntryBytes) = entries[index] := by
    rw [bytesAt_entryArray dev entries index inside, ← List.append_nil (GptEntry.encode _)]
    exact GptEntry.decode_encode fits []
  have wanted : ¬(index + 1 > h.numPartitionEntries ∨ ¬isPteValid entries[index] = true) := by
    rw [counted, used]
    simp
    omega
  rw [getPartitionInfoEfi, if_neg (by omega), valid]
  simp only [Nat.add_sub_cancel, entry]
  rw [if_neg wanted]

end Reading

/-! ## Writing the table -/

theorem blockWrite_some {dev : BlockDev} {disk after : Memory} {start count : Nat}
    {buffer : List UInt8} (written : blockWrite dev disk start count buffer = some after) :
    start + count ≤ dev.lba ∧
      after = disk.store (start * dev.blksz) (buffer.take (count * dev.blksz)) := by
  unfold blockWrite at written
  split at written
  case isTrue inside => exact ⟨inside, (Option.some.inj written).symm⟩
  case isFalse => cases written

section Writing

variable {dev : BlockDev} (guid : Guid) (pte : List UInt8)

/-- The header of the primary table. -/
def primaryHeader (dev : BlockDev) (guid : Guid) (pte : List UInt8) : GptHeader :=
  sealHeader (freshHeader dev guid) pte

/-- The header of the backup table. -/
def backupHeader (dev : BlockDev) (guid : Guid) (pte : List UInt8) : GptHeader :=
  prepareBackupGptHeader (primaryHeader dev guid pte)

theorem lbaint_last (large : 67 ≤ dev.lba) : lbaint (dev.lba + 2 ^ 32 - 1) = dev.lba - 1 := by
  have narrow := dev.narrow
  unfold lbaint
  omega

theorem lbaint_last_usable (large : 67 ≤ dev.lba) :
    lbaint (dev.lba + 2 ^ 32 - 34) = dev.lba - 34 := by
  have narrow := dev.narrow
  unfold lbaint
  omega

/-- The primary header is sealed for the block behind the boot record. -/
theorem primaryHeader_sealed (large : 67 ≤ dev.lba)
    (fill : pte.length = tableBlocks dev * dev.blksz) :
    Sealed dev 1 (primaryHeader dev guid pte) pte := by
  have narrow := dev.narrow
  have bounds := tableBlocks_bounds dev
  have last := lbaint_last_usable large
  have whole : ∀ h : GptHeader, h.encode.take gptHeaderBytes = h.encode := fun h =>
    List.take_of_length_le (by simp)
  constructor
  case fits =>
    constructor <;> simp only [primaryHeader, sealHeader, freshHeader]
    case headerCrc32 => exact UInt32.toNat_lt _
    case partitionEntryArrayCrc32 => exact UInt32.toNat_lt _
    case alternateLba => exact lt_trans (lbaint_lt _) (by decide)
    case lastUsableLba => exact lt_trans (lbaint_lt _) (by decide)
    all_goals decide
  case headerCrc32 =>
    simp only [primaryHeader, sealHeader, freshHeader, whole]
    rfl
  case last =>
    simp only [primaryHeader, sealHeader, freshHeader, last]
    omega
  case first =>
    simp only [primaryHeader, sealHeader, freshHeader]
    omega
  case placed => omega
  case entriesPlaced =>
    simp only [primaryHeader, sealHeader, freshHeader]
    omega
  case entriesFill => exact fill
  all_goals rfl

/-- The backup header is sealed for the last block. -/
theorem backupHeader_sealed (large : 67 ≤ dev.lba) (fill : pte.length = tableBlocks dev * dev.blksz)
    :
    Sealed dev (dev.lba - 1) (backupHeader dev guid pte) pte := by
  have narrow := dev.narrow
  have bounds := tableBlocks_bounds dev
  have last := lbaint_last large
  have lastUsable := lbaint_last_usable large
  have whole : ∀ h : GptHeader, h.encode.take gptHeaderBytes = h.encode := fun h =>
    List.take_of_length_le (by simp)
  constructor
  case fits =>
    constructor <;>
      simp only [backupHeader, prepareBackupGptHeader, primaryHeader, sealHeader, freshHeader]
    case headerCrc32 => exact UInt32.toNat_lt _
    case partitionEntryArrayCrc32 => exact UInt32.toNat_lt _
    case myLba => exact lt_trans (lbaint_lt _) (by decide)
    case lastUsableLba => exact lt_trans (lbaint_lt _) (by decide)
    case partitionEntryLba =>
      rw [lastUsable]
      omega
    all_goals decide
  case headerCrc32 =>
    simp only [backupHeader, prepareBackupGptHeader, primaryHeader, sealHeader, freshHeader, whole]
    rfl
  case myLba => exact last
  case last =>
    simp only [backupHeader, prepareBackupGptHeader, primaryHeader, sealHeader, freshHeader,
      lastUsable]
    omega
  case first =>
    simp only [backupHeader, prepareBackupGptHeader, primaryHeader, sealHeader, freshHeader]
    omega
  case placed => omega
  case entriesPlaced =>
    simp only [backupHeader, prepareBackupGptHeader, primaryHeader, sealHeader, freshHeader,
      lastUsable]
    omega
  case entriesFill => exact fill
  all_goals rfl

/-- What the writes of the table leave on the disk, from the boot record on. -/
theorem writeGptTable_some {disk restored : Memory} (large : 67 ≤ dev.lba)
    (fill : pte.length = tableBlocks dev * dev.blksz)
    (written : writeGptTable dev disk (freshHeader dev guid) pte = some restored) :
    ∃ protected_disk : Memory, restored =
      (((protected_disk.store dev.blksz (headerBlock dev (primaryHeader dev guid pte))).store
        (2 * dev.blksz) pte).store ((dev.lba - 33) * dev.blksz) pte).store
        ((dev.lba - 1) * dev.blksz) (headerBlock dev (backupHeader dev guid pte)) := by
  have narrow := dev.narrow
  have last := lbaint_last large
  have lastUsable := lbaint_last_usable large
  have block : ∀ h, (headerBlock dev h).take (1 * dev.blksz) = headerBlock dev h := fun h =>
    List.take_of_length_le (by simp)
  have blocks : pte.take (blockCnt (gptEntryNumbers * gptEntryBytes) dev * dev.blksz) = pte :=
    List.take_of_length_le (le_of_eq fill)
  simp only [writeGptTable, bind, Option.bind_eq_some_iff] at written
  obtain ⟨mbr, -, first, one, second, two, third, three, four⟩ := written
  obtain ⟨-, rfl⟩ := blockWrite_some one
  obtain ⟨-, rfl⟩ := blockWrite_some two
  obtain ⟨-, rfl⟩ := blockWrite_some three
  obtain ⟨-, rfl⟩ := blockWrite_some four
  have backupAt : lbaint (lbaint (backupHeader dev guid pte).lastUsableLba + 1) = dev.lba - 33 := by
    have place : (backupHeader dev guid pte).lastUsableLba = dev.lba - 34 := lastUsable
    have inner : lbaint (dev.lba - 34) = dev.lba - 34 := lbaint_of_lt (by omega)
    rw [place, inner, lbaint_of_lt (by omega)]
    omega
  have headerAt : lbaint (backupHeader dev guid pte).myLba = dev.lba - 1 := by
    have place : (backupHeader dev guid pte).myLba = dev.lba - 1 := last
    rw [place, lbaint_of_lt (by omega)]
  refine ⟨mbr, ?_⟩
  simp only [backupHeader, primaryHeader] at backupAt headerAt ⊢
  rw [backupAt, headerAt, block, block, Nat.one_mul]
  simp only [freshHeader, blocks]

theorem backupHeader_entryLba (large : 67 ≤ dev.lba) :
    (backupHeader dev guid pte).partitionEntryLba = dev.lba - 33 := by
  have place : (backupHeader dev guid pte).partitionEntryLba =
    lbaint (dev.lba + 2 ^ 32 - 34) + 1 := rfl
  rw [place, lbaint_last_usable large]
  omega

theorem writeGptTable_stored {disk restored : Memory} (large : 67 ≤ dev.lba)
    (fill : pte.length = tableBlocks dev * dev.blksz)
    (written : writeGptTable dev disk (freshHeader dev guid) pte = some restored) :
    Stored dev restored 1 (primaryHeader dev guid pte) pte ∧
      Stored dev restored (dev.lba - 1) (backupHeader dev guid pte) pte := by
  obtain ⟨bare, rfl⟩ := writeGptTable_some guid pte large fill written
  have wide := dev.wide
  have few := (tableBlocks_bounds dev).2.1
  -- The four ranges follow each other on the device.
  have primaryEnd : dev.blksz + dev.blksz = 2 * dev.blksz := by ring
  have entriesEnd : 2 * dev.blksz + pte.length ≤ (dev.lba - 33) * dev.blksz := by
    rw [fill, ← Nat.add_mul]
    exact Nat.mul_le_mul_right _ (by omega)
  have backupEnd : (dev.lba - 33) * dev.blksz + pte.length ≤ (dev.lba - 1) * dev.blksz := by
    rw [fill, ← Nat.add_mul]
    exact Nat.mul_le_mul_right _ (by omega)
  constructor
  · constructor
    · rw [Nat.one_mul]
      have stored := Memory.store_holds bare dev.blksz (headerBlock dev (primaryHeader dev guid pte))
      refine ((stored.store_apart ?_).store_apart ?_).store_apart ?_ <;>
        exact Or.inl (by rw [length_headerBlock]; omega)
    · refine ((Memory.store_holds _ (2 * dev.blksz) pte).store_apart ?_).store_apart ?_ <;>
        exact Or.inl (by omega)
  · constructor
    · exact Memory.store_holds _ _ _
    · rw [backupHeader_entryLba guid pte large]
      exact (Memory.store_holds _ _ pte).store_apart (Or.inl backupEnd)

end Writing

/-- What may happen to a restored disk: anything between the tables, and anything to the primary
table that leaves it intact or no longer valid. -/
def Survives (dev : BlockDev) (restored later : Memory) : Prop :=
  Memory.Agree (fun a => (dev.lba - 33) * dev.blksz ≤ a) restored later ∧
    (isGptValid dev later 1 = none ∨ Memory.Agree (fun a => a < 34 * dev.blksz) restored later)

/-- A table of the restored disk is found valid later. -/
theorem survivor_valid {dev : BlockDev} {restored later : Memory} {guid : Guid} {pte : List UInt8}
    (large : 67 ≤ dev.lba) (fill : pte.length = tableBlocks dev * dev.blksz)
    (primary : Stored dev restored 1 (primaryHeader dev guid pte) pte)
    (backup : Stored dev restored (dev.lba - 1) (backupHeader dev guid pte) pte)
    (survives : Survives dev restored later) :
    ∃ h, h.numPartitionEntries = gptEntryNumbers ∧
      (isGptValid dev later 1).or (isGptValid dev later (lbaint (dev.lba + 2 ^ 32 - 1))) =
        some (h, pte) := by
  have few := (tableBlocks_bounds dev).2.1
  have entryAt := backupHeader_entryLba guid pte large
  have second : isGptValid dev later (lbaint (dev.lba + 2 ^ 32 - 1)) =
      some (backupHeader dev guid pte, pte) := by
    rw [lbaint_last large]
    apply isGptValid_of_stored (backupHeader_sealed guid pte large fill)
    constructor
    · apply backup.header.congr
      intro a inside
      apply survives.1
      have behind : (dev.lba - 33) * dev.blksz ≤ (dev.lba - 1) * dev.blksz :=
        Nat.mul_le_mul_right _ (by omega)
      omega
    · apply backup.entries.congr
      intro a inside
      rw [entryAt] at inside
      exact survives.1 a inside.1
  rcases survives.2 with destroyed | intact
  · rw [destroyed, Option.none_or]
    exact ⟨_, rfl, second⟩
  · have first : isGptValid dev later 1 = some (primaryHeader dev guid pte, pte) := by
      apply isGptValid_of_stored (primaryHeader_sealed guid pte large fill)
      constructor
      · apply primary.header.congr
        intro a inside
        apply intact
        rw [length_headerBlock] at inside
        omega
      · apply primary.entries.congr
        intro a inside
        apply intact
        have place : (primaryHeader dev guid pte).partitionEntryLba = 2 := rfl
        have ending : 2 * dev.blksz + tableBlocks dev * dev.blksz ≤ 34 * dev.blksz := by
          rw [← Nat.add_mul]
          exact Nat.mul_le_mul_right _ (by omega)
        rw [place, fill] at inside
        omega
    rw [first]
    exact ⟨_, rfl, rfl⟩

theorem large_of_filled {dev : BlockDev} {p : DiskPartition} {rest : List DiskPartition}
    {entries : List GptEntry} (large : 34 ≤ dev.lba) (ends : EndsFit 34 (p :: rest))
    (filled : fillPteLoop (dev.lba - 34) 34 (p :: rest) = some entries) : 69 ≤ dev.lba := by
  have narrow := dev.narrow
  obtain ⟨-, -, apart, below, -⟩ := fillPteLoop_cons filled
  have behind : 34 ≤ p.startFrom 34 := by
    unfold DiskPartition.startFrom
    split <;> omega
  rw [lbaint_of_lt ends.1, lbaint_of_lt (by omega)] at below
  omega

theorem gptRestore_some {dev : BlockDev} {disk restored : Memory} {strDiskGuid : List UInt8}
    {partitions : List DiskPartition} (large : 34 ≤ dev.lba)
    (accepted : gptRestore dev disk strDiskGuid partitions = some restored) :
    ∃ guid entries, fillPteLoop (dev.lba - 34) 34 partitions = some entries ∧
      writeGptTable dev disk (freshHeader dev guid) (entryArray dev entries) = some restored := by
  have narrow := dev.narrow
  have last : lbaint (dev.lba + 2 ^ 32 - 34) = dev.lba - 34 := by
    unfold lbaint
    omega
  simp only [gptRestore, bind, Option.bind_eq_some_iff, gptFillHeader,
    Option.map_eq_some_iff] at accepted
  obtain ⟨h, ⟨guid, -, rfl⟩, entries, filled, written⟩ := accepted
  have usable : (freshHeader dev guid).lastUsableLba = dev.lba - 34 := last
  rw [gptFillPte, usable] at filled
  exact ⟨guid, entries, filled, written⟩

section Restored

variable {dev : BlockDev} {disk restored : Memory} {guid : Guid} {entries : List GptEntry}

theorem restored_entries (large : 67 ≤ dev.lba) (few : entries.length ≤ gptEntryNumbers)
    (written : writeGptTable dev disk (freshHeader dev guid) (entryArray dev entries) =
      some restored) :
    restored.Holds (2 * dev.blksz) (entries.flatMap GptEntry.encode) := by
  have stored : restored.Holds (2 * dev.blksz) (entryArray dev entries) :=
    (writeGptTable_stored guid _ large (length_entryArray dev few) written).1.entries
  simp only [entryArray, List.flatMap_append, List.append_assoc] at stored
  exact ((Memory.holds_append _ _ _ _).mp stored).1

theorem restored_info (large : 67 ≤ dev.lba) (few : entries.length ≤ gptEntryNumbers)
    (usable : ∀ e ∈ entries, e.Fits ∧ isPteValid e)
    (written : writeGptTable dev disk (freshHeader dev guid) (entryArray dev entries) =
      some restored) {later : Memory} (survives : Survives dev restored later) {index : Nat}
    (inside : index < entries.length) :
    getPartitionInfoEfi dev later (index + 1) = some (infoOf dev entries[index]) := by
  have fill := length_entryArray dev few
  obtain ⟨primary, backup⟩ := writeGptTable_stored guid _ large fill written
  obtain ⟨h, counted, valid⟩ := survivor_valid large fill primary backup survives
  exact getPartitionInfoEfi_of_valid valid counted few usable inside

end Restored

/-- A restored table has its entries apart from each other and inside the usable blocks, and each
partition is reported as it was asked for, also from the backup alone. -/
theorem gpt_restored (dev : BlockDev) (disk restored : Memory) (strDiskGuid : List UInt8)
    (partitions : List DiskPartition) (large : 34 ≤ dev.lba)
    (few : partitions.length ≤ gptEntryNumbers) (ends : EndsFit 34 partitions)
    (accepted : gptRestore dev disk strDiskGuid partitions = some restored) :
    ∃ entries : List GptEntry, entries.length = partitions.length ∧
      restored.Holds (2 * dev.blksz) (entries.flatMap GptEntry.encode) ∧
      entries.Pairwise (·.endingLba < ·.startingLba) ∧
      (∀ e ∈ entries, 34 ≤ e.startingLba ∧ e.startingLba ≤ dev.lba - 34 ∧
        e.endingLba ≤ dev.lba - 34) ∧
      ∀ later, Survives dev restored later → ∀ i (inside : i < partitions.length),
        ∃ info, getPartitionInfoEfi dev later (i + 1) = some info ∧
          (requested (dev.lba - 34) 34 partitions)[i]? = some (info.start, info.size) ∧
          info.name = (cString partitions[i].name).map shown := by
  have narrow := dev.narrow
  obtain ⟨guid, entries, filled, written⟩ := gptRestore_some large accepted
  have laid := fillPteLoop_laid dev (by omega) partitions (by decide) ends filled
  have count := laid.count
  refine ⟨entries, count, ?_, laid.ordered, laid.inside, ?_⟩
  · cases partitions with
    | nil =>
      have none : entries = [] := List.eq_nil_of_length_eq_zero count
      subst none
      intro i inside
      simp at inside
    | cons p rest =>
      have roomy := large_of_filled large ends filled
      exact restored_entries (by omega) (by omega) written
  · intro later survives i inside
    have wide : 69 ≤ dev.lba := by
      cases partitions with
      | nil => simp at inside
      | cons p rest => exact large_of_filled large ends filled
    refine ⟨_, restored_info (by omega) (by omega) laid.usable written survives (by omega), ?_, ?_⟩
    · have extents := congrArg (·[i]?) laid.extents
      simpa [count, inside] using extents.symm
    · have names := congrArg (·[i]?) laid.names
      simpa [count, inside] using names

/-- A device of 1000 blocks. -/
def sampleDev : BlockDev where
  blksz := 512
  lba := 1000
  behind := Memory.blank
  wide := le_rfl
  narrow := by decide

/-- An identifier of zeros, as text. -/
def sampleUuid : List UInt8 :=
  List.replicate 8 48 ++ 45 :: (List.replicate 4 48 ++ 45 :: (List.replicate 4 48 ++
    45 :: (List.replicate 4 48 ++ 45 :: List.replicate 12 48)))

/-- A partition with a name of one character. -/
def samplePartition (start size : Nat) (letter : UInt8) (startFits : start < 2 ^ 32)
    (sizeFits : size < 2 ^ 32) : DiskPartition where
  start := start
  size := size
  name := letter :: List.replicate 31 0
  uuid := sampleUuid
  named := rfl
  startFits := startFits
  sizeFits := sizeFits

/-- A partition of 100 blocks and the rest of the disk. -/
def sampleList : List DiskPartition :=
  [samplePartition 0 100 97 (by decide) (by decide),
    samplePartition 200 0 98 (by decide) (by decide)]

/-- The second partition reaches from its start to the last usable block. -/
theorem gpt_restored_sample :
    ∃ restored, gptRestore sampleDev Memory.blank sampleUuid sampleList = some restored ∧
      ∃ info, getPartitionInfoEfi sampleDev restored 2 = some info ∧
        info.start = 200 ∧ info.size = 767 ∧ info.name = [98] := by
  have accepted : (gptRestore sampleDev Memory.blank sampleUuid sampleList).isSome := by
    decide +kernel
  obtain ⟨restored, found⟩ := Option.isSome_iff_exists.mp accepted
  obtain ⟨-, -, -, -, -, reported⟩ := gpt_restored sampleDev Memory.blank restored sampleUuid
    sampleList (by decide) (by decide) ⟨by decide, by decide, trivial⟩ found
  have intact : Survives sampleDev restored restored :=
    ⟨fun _ _ => rfl, Or.inr fun _ _ => rfl⟩
  obtain ⟨info, read, extent, name⟩ := reported restored intact 1 (by decide)
  have wanted : (requested (sampleDev.lba - 34) 34 sampleList)[1]? = some (200, 767) := by decide
  rw [wanted, Option.some.injEq, Prod.mk.injEq] at extent
  exact ⟨restored, found, info, read, extent.1.symm, extent.2.symm, name⟩

/-- A name that cannot be printed. -/
def sampleOdd : DiskPartition := samplePartition 0 100 1 (by decide) (by decide)

/-- A partition whose end passes the largest `lbaint_t`. -/
def sampleWrapping : DiskPartition := samplePartition 4294967040 512 97 (by decide) (by decide)

/-- Not everything accepted comes back as it was asked for: a character that cannot be printed is
shown as a dot, and an end that wraps around passes the check with a start behind the disk. -/
theorem gpt_restored_otherwise :
    (∃ restored info, gptRestore sampleDev Memory.blank sampleUuid [sampleOdd] = some restored ∧
      getPartitionInfoEfi sampleDev restored 1 = some info ∧
      cString sampleOdd.name = [1] ∧ info.name = [46]) ∧
    (gptRestore sampleDev Memory.blank sampleUuid [sampleWrapping]).isSome ∧
    ((gptFillHeader sampleDev sampleUuid).bind fun h =>
      (gptFillPte h [sampleWrapping]).map fun entries =>
        (h.lastUsableLba, entries.map (·.startingLba))) = some (966, [4294967040]) := by
  refine ⟨?_, by decide +kernel, by decide +kernel⟩
  have accepted : (gptRestore sampleDev Memory.blank sampleUuid [sampleOdd]).isSome := by
    decide +kernel
  obtain ⟨restored, found⟩ := Option.isSome_iff_exists.mp accepted
  obtain ⟨guid, entries, filled, written⟩ := gptRestore_some (by decide) found
  have laid := fillPteLoop_laid sampleDev (by decide) [sampleOdd] (by decide)
    ⟨by decide, trivial⟩ filled
  have one : entries.length = 1 := laid.count
  have read := restored_info (by decide) (by rw [one]; decide) laid.usable written
    ⟨fun _ _ => rfl, Or.inr fun _ _ => rfl⟩ (by rw [one]; decide : 0 < entries.length)
  refine ⟨restored, _, found, read, by decide, ?_⟩
  have names := congrArg (·[0]?) laid.names
  have dot : (cString sampleOdd.name).map shown = [46] := by decide
  simpa [one, dot] using names

end HrppBoot.Disk
