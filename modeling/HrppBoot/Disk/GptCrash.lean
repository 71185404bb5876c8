import HrppBoot.Disk.GptRestore

/-!
# Power lost while the table is written

`write_gpt_table` as a list of block writes, and what a loss of power between or inside them leaves
on the disk. The reader then finds the old table or the new one as a whole.
-/

namespace HrppBoot.Disk

open ByteMemory LittleEndian

/-! ## Writes and what is left of them -/

/-- One call of `block_write`. -/
structure BlockWrite where
  start : Nat
  count : Nat
  buffer : List UInt8

/-- The writes of `write_gpt_table`, in order. -/
def tableWrites (dev : BlockDev) (h : GptHeader) (pte : List UInt8) : List BlockWrite :=
  let pteBlkCnt := blockCnt (h.numPartitionEntries * gptEntryBytes) dev
  let primary := sealHeader h pte
  let backup := prepareBackupGptHeader primary
  [⟨0, 1, legacyMbr dev ++ dev.behind.load 0 (dev.blksz - 512)⟩,
    ⟨1, 1, headerBlock dev primary⟩,
    ⟨2, pteBlkCnt, pte⟩,
    ⟨lbaint (lbaint backup.lastUsableLba + 1), pteBlkCnt, pte⟩,
    ⟨lbaint backup.myLba, 1, headerBlock dev backup⟩]

def perform (dev : BlockDev) : Memory → List BlockWrite → Option Memory
  | disk, [] => some disk
  | disk, w :: rest =>
    (blockWrite dev disk w.start w.count w.buffer).bind fun next => perform dev next rest

theorem writeGptTable_eq_perform (dev : BlockDev) (disk : Memory) (h : GptHeader) (pte : List UInt8)
    :
    writeGptTable dev disk h pte = perform dev disk (tableWrites dev h pte) := by
  simp only [writeGptTable, setProtectiveMbr, tableWrites, perform, bind, Option.bind_fun_some]

def BlockDev.block (dev : BlockDev) (k a : Nat) : Prop :=
  k * dev.blksz ≤ a ∧ a < (k + 1) * dev.blksz

/-- What a write that was cut off leaves: each block it should have written is the old one or the
new one, and every other block is the old one. -/
def BlockWrite.Torn (dev : BlockDev) (disk : Memory) (w : BlockWrite) (torn : Memory) : Prop :=
  ∀ k, Memory.Agree (dev.block k) disk torn ∨
    (w.start ≤ k ∧ k < w.start + w.count ∧ Memory.Agree (dev.block k)
      (disk.store (w.start * dev.blksz) (w.buffer.take (w.count * dev.blksz))) torn)

/-- A disk on which power was lost between or inside the writes. -/
inductive Crashed (dev : BlockDev) : List BlockWrite → Memory → Memory → Prop where
  | done (disk : Memory) : Crashed dev [] disk disk
  | torn {w : BlockWrite} {rest : List BlockWrite} {disk left : Memory}
      (cut : w.Torn dev disk left) : Crashed dev (w :: rest) disk left
  | next {w : BlockWrite} {rest : List BlockWrite} {disk after left : Memory}
      (written : blockWrite dev disk w.start w.count w.buffer = some after)
      (later : Crashed dev rest after left) : Crashed dev (w :: rest) disk left

/-! ## The assumptions -/

/-- The array of entries as far as it is written: whole blocks. -/
def tableArray (dev : BlockDev) (entries : List GptEntry) : List UInt8 :=
  (entryArray dev entries).take (tableBlocks dev * dev.blksz)

/-- An array whose blocks are each taken from one of two arrays. -/
structure Mixed (dev : BlockDev) (old new mix : List UInt8) : Prop where
  fill : mix.length = tableBlocks dev * dev.blksz
  blocks : ∀ k < tableBlocks dev,
    bytesAt mix (k * dev.blksz) dev.blksz = bytesAt old (k * dev.blksz) dev.blksz ∨
      bytesAt mix (k * dev.blksz) dev.blksz = bytesAt new (k * dev.blksz) dev.blksz

/-- The checksum tells the new entries from every mix of old and new blocks. -/
def Distinguished (dev : BlockDev) (old new : List UInt8) : Prop :=
  ∀ mix, Mixed dev old new mix → crc32 (mix.take tableBytes) = crc32 (new.take tableBytes) →
    mix.take tableBytes = new.take tableBytes

/-- A valid table on a disk: both copies are valid, and the first usable block does not lie behind
the blocks of the backup, so that the copies are apart. -/
structure ValidGpt (dev : BlockDev) (disk : Memory) : Prop where
  primary : (isGptValid dev disk 1).isSome
  backup : (isGptValid dev disk (dev.lba - 1)).isSome
  apart : 34 ≤ dev.lba - 33

/-! ## Torn writes -/

section Torn

variable {dev : BlockDev} {disk left : Memory} {w : BlockWrite}

theorem block_of_address (dev : BlockDev) (a : Nat) : dev.block (a / dev.blksz) a := by
  have wide := dev.wide
  constructor
  · exact Nat.div_mul_le_self a dev.blksz
  · exact Nat.lt_mul_of_div_lt (Nat.lt_succ_self _) (by omega)

theorem BlockWrite.Torn.apart (cut : w.Torn dev disk left) {a : Nat}
    (outside : a < w.start * dev.blksz ∨ (w.start + w.count) * dev.blksz ≤ a) :
    left a = disk a := by
  have inside := block_of_address dev a
  rcases cut (a / dev.blksz) with same | ⟨low, high, -⟩
  · exact (same a inside).symm
  · exfalso
    have from_start := Nat.mul_le_mul_right dev.blksz low
    have to_end := Nat.mul_le_mul_right dev.blksz (Nat.succ_le_of_lt high)
    obtain ⟨lower, upper⟩ := inside
    simp only [Nat.succ_eq_add_one] at to_end
    omega

theorem BlockWrite.Torn.holds (cut : w.Torn dev disk left) {address : Nat} {bytes : List UInt8}
    (stands : disk.Holds address bytes) (before : address + bytes.length ≤ w.start * dev.blksz) :
    left.Holds address bytes := by
  apply stands.congr
  intro a inside
  exact (cut.apart (Or.inl (by omega))).symm

end Torn

theorem bytesAt_load (m : Memory) (start : Nat) {blocks size k : Nat} (inside : k < blocks) :
    bytesAt (m.load start (blocks * size)) (k * size) size = m.load (start + k * size) size := by
  have room : (k + 1) * size ≤ blocks * size := Nat.mul_le_mul_right size inside
  rw [Nat.succ_mul] at room
  unfold bytesAt
  rw [Memory.drop_load, Memory.take_load, Nat.min_eq_left (by omega)]

theorem length_tableArray (dev : BlockDev) (entries : List GptEntry) :
    (tableArray dev entries).length = tableBlocks dev * dev.blksz := by
  have room := (tableBlocks_bounds dev).1
  have array := length_array GptEntry.encode GptEntry.length_encode
    (entries ++ List.replicate (gptEntryNumbers - entries.length) GptEntry.unused)
  have full : gptEntryNumbers ≤ (entries ++
      List.replicate (gptEntryNumbers - entries.length) GptEntry.unused).length := by
    simp only [List.length_append, List.length_replicate]
    omega
  have enough := Nat.mul_le_mul_right gptEntryBytes full
  have long : tableBlocks dev * dev.blksz ≤ (entryArray dev entries).length := by
    simp only [entryArray, List.length_append, array, List.length_replicate]
    simp only [List.length_append, List.length_replicate] at enough
    unfold tableBlocks tableBytes at *
    omega
  rw [tableArray, List.length_take]
  exact Nat.min_eq_left long

theorem take_tableArray (dev : BlockDev) (entries : List GptEntry) :
    (entryArray dev entries).take tableBytes = (tableArray dev entries).take tableBytes := by
  rw [tableArray, List.take_take, Nat.min_eq_left (tableBlocks_bounds dev).1]

theorem primaryHeader_tableArray (dev : BlockDev) (guid : Guid) (entries : List GptEntry) :
    primaryHeader dev guid (entryArray dev entries) =
      primaryHeader dev guid (tableArray dev entries) := by
  have sums := take_tableArray dev entries
  have product : gptEntryNumbers * gptEntryBytes = tableBytes := rfl
  simp only [primaryHeader, sealHeader, freshHeader, product, sums]

theorem tableWrites_fresh {dev : BlockDev} (guid : Guid) (entries : List GptEntry)
    (large : 67 ≤ dev.lba) :
    tableWrites dev (freshHeader dev guid) (entryArray dev entries) =
      [⟨0, 1, legacyMbr dev ++ dev.behind.load 0 (dev.blksz - 512)⟩,
        ⟨1, 1, headerBlock dev (primaryHeader dev guid (tableArray dev entries))⟩,
        ⟨2, tableBlocks dev, entryArray dev entries⟩,
        ⟨dev.lba - 33, tableBlocks dev, entryArray dev entries⟩,
        ⟨dev.lba - 1, 1, headerBlock dev (backupHeader dev guid (tableArray dev entries))⟩] := by
  have narrow := dev.narrow
  have place : lbaint (lbaint (backupHeader dev guid (tableArray dev entries)).lastUsableLba + 1) =
      dev.lba - 33 := by
    have last : (backupHeader dev guid (tableArray dev entries)).lastUsableLba = dev.lba - 34 :=
      lbaint_last_usable large
    have inner : lbaint (dev.lba - 34) = dev.lba - 34 := lbaint_of_lt (by omega)
    rw [last, inner, lbaint_of_lt (by omega)]
    omega
  have header : lbaint (backupHeader dev guid (tableArray dev entries)).myLba = dev.lba - 1 := by
    have last : (backupHeader dev guid (tableArray dev entries)).myLba = dev.lba - 1 :=
      lbaint_last large
    rw [last, lbaint_of_lt (by omega)]
  have primary : sealHeader (freshHeader dev guid) (entryArray dev entries) =
      primaryHeader dev guid (tableArray dev entries) := primaryHeader_tableArray dev guid entries
  have backup : prepareBackupGptHeader (primaryHeader dev guid (tableArray dev entries)) =
      backupHeader dev guid (tableArray dev entries) := rfl
  unfold tableWrites
  simp only [primary, backup, place, header]
  rfl

/-! ## What a crash leaves -/

theorem Crashed.apart {dev : BlockDev} {writes : List BlockWrite} {disk left : Memory}
    (crashed : Crashed dev writes disk left) {place : Nat} (behind : ∀ w ∈ writes, place ≤ w.start)
    {a : Nat} (before : a < place * dev.blksz) :
    left a = disk a := by
  induction crashed with
  | done => rfl
  | @torn w rest disk left cut =>
    have low := Nat.mul_le_mul_right dev.blksz (behind w List.mem_cons_self)
    exact cut.apart (Or.inl (by omega))
  | @next w rest disk after left written later ih =>
    have low := Nat.mul_le_mul_right dev.blksz (behind w List.mem_cons_self)
    obtain ⟨-, rfl⟩ := blockWrite_some written
    rw [ih fun other member => behind other (List.mem_cons_of_mem w member)]
    exact Memory.store_outside _ _ _ _ (Or.inl (by omega))

/-- The states in which a crash can leave a disk, for the header and the array of the new table. -/
inductive Remains (dev : BlockDev) (h : GptHeader) (array : List UInt8) (old left : Memory) :
    Prop where
  | before (same : Memory.Agree (fun a => dev.blksz ≤ a) old left)
  /-- The primary header was written, and some of the blocks of its entries. -/
  | during (header : left.Holds dev.blksz (headerBlock dev h))
      (mixed : Mixed dev (old.load (2 * dev.blksz) (tableBlocks dev * dev.blksz)) array
        (left.load (2 * dev.blksz) (tableBlocks dev * dev.blksz)))
      (backup : Memory.Agree (fun a => (dev.lba - 33) * dev.blksz ≤ a) old left)
  | after (header : left.Holds dev.blksz (headerBlock dev h))
      (entries : left.Holds (2 * dev.blksz) array)

section Remains

variable {dev : BlockDev} {h : GptHeader} {array : List UInt8} {old first left : Memory}

theorem remains_of_torn_mbr {buffer : List UInt8}
    (cut : BlockWrite.Torn dev old ⟨0, 1, buffer⟩ left) : Remains dev h array old left := by
  apply Remains.before
  intro a behind
  exact (cut.apart (Or.inr (by simpa using behind))).symm

/-- Power lost while the header is written: its block is the old one or the new one. -/
theorem remains_of_torn_header (large : 67 ≤ dev.lba)
    (unchanged : Memory.Agree (fun a => dev.blksz ≤ a) old first)
    (cut : BlockWrite.Torn dev first ⟨1, 1, headerBlock dev h⟩ left) :
    Remains dev h array old left := by
  have wide := dev.wide
  have low : 2 * dev.blksz ≤ (dev.lba - 33) * dev.blksz := Nat.mul_le_mul_right _ (by omega)
  have behind : Memory.Agree (fun a => 2 * dev.blksz ≤ a) old left := by
    intro a far
    rw [cut.apart (Or.inr (by simpa using far))]
    exact unchanged a (by omega)
  rcases cut 1 with same | ⟨-, -, new⟩
  · apply Remains.before
    intro a far
    by_cases near : a < 2 * dev.blksz
    · rw [unchanged a far]
      exact same a ⟨by omega, near⟩
    · exact behind a (by omega)
  · apply Remains.during
    · have whole : (headerBlock dev h).take dev.blksz = headerBlock dev h :=
        List.take_of_length_le (by simp)
      simp only [Nat.one_mul, whole] at new
      apply (Memory.store_holds first dev.blksz (headerBlock dev h)).congr
      intro a inside
      rw [length_headerBlock] at inside
      exact new a ⟨by omega, by omega⟩
    · constructor
      · simp
      · intro k _
        left
        congr 1
        apply Memory.load_congr
        intro a inside
        exact (behind a (by omega)).symm
    · intro a far
      exact behind a (by omega)

/-- Power lost while the entries are written: each of their blocks is the old one or the new one. -/
theorem remains_of_torn_entries (large : 67 ≤ dev.lba) {buffer : List UInt8}
    (whole : buffer.take (tableBlocks dev * dev.blksz) = array)
    (fill : array.length = tableBlocks dev * dev.blksz)
    (header : first.Holds dev.blksz (headerBlock dev h))
    (unchanged : Memory.Agree (fun a => 2 * dev.blksz ≤ a) old first)
    (cut : BlockWrite.Torn dev first ⟨2, tableBlocks dev, buffer⟩ left) :
    Remains dev h array old left := by
  have few := (tableBlocks_bounds dev).2.1
  have low : (2 + tableBlocks dev) * dev.blksz ≤ (dev.lba - 33) * dev.blksz :=
    Nat.mul_le_mul_right _ (by omega)
  have ahead : 2 * dev.blksz ≤ (2 + tableBlocks dev) * dev.blksz :=
    Nat.mul_le_mul_right _ (by omega)
  apply Remains.during
  · apply cut.holds header
    rw [length_headerBlock]
    exact le_of_eq (Nat.two_mul dev.blksz).symm
  · constructor
    · simp
    · intro k inside
      have place : 2 * dev.blksz + k * dev.blksz = (2 + k) * dev.blksz := by ring
      have next : (2 + k + 1) * dev.blksz = (2 + k) * dev.blksz + dev.blksz := by ring
      have above : 2 * dev.blksz ≤ (2 + k) * dev.blksz := Nat.mul_le_mul_right _ (by omega)
      rw [bytesAt_load _ _ inside, bytesAt_load _ _ inside, place]
      rcases cut (2 + k) with same | ⟨-, -, new⟩
      · left
        apply Memory.load_congr
        intro a range
        rw [unchanged a (by omega)]
        exact (same a ⟨range.1, by omega⟩).symm
      · right
        have stored := (Memory.store_holds first (2 * dev.blksz) array).load
        rw [fill] at stored
        rw [← stored, bytesAt_load _ _ inside, place]
        apply Memory.load_congr
        intro a range
        simp only [whole] at new
        exact (new a ⟨range.1, by omega⟩).symm
  · intro a far
    rw [cut.apart (Or.inr (by simp only; omega))]
    exact unchanged a (by omega)

/-- Every crash leaves the old table, the primary copy in writing, or the primary copy written. -/
theorem remains_of_crashed (guid : Guid) (entries : List GptEntry) (large : 67 ≤ dev.lba)
    (crashed : Crashed dev (tableWrites dev (freshHeader dev guid) (entryArray dev entries))
      old left) :
    Remains dev (primaryHeader dev guid (tableArray dev entries)) (tableArray dev entries)
      old left := by
  have fill := length_tableArray dev entries
  have few := (tableBlocks_bounds dev).2.1
  rw [tableWrites_fresh guid entries large] at crashed
  rcases crashed with _ | cut | ⟨mbr, crashed⟩
  · exact remains_of_torn_mbr cut
  obtain ⟨-, rfl⟩ := blockWrite_some mbr
  have unchanged : Memory.Agree (fun a => dev.blksz ≤ a) old (old.store (0 * dev.blksz)
      ((legacyMbr dev ++ dev.behind.load 0 (dev.blksz - 512)).take (1 * dev.blksz))) := by
    intro a far
    have short := List.length_take_le (1 * dev.blksz)
      (legacyMbr dev ++ dev.behind.load 0 (dev.blksz - 512))
    exact (Memory.store_outside _ _ _ _ (Or.inr (by omega))).symm
  generalize old.store (0 * dev.blksz) _ = booted at crashed unchanged
  rcases crashed with _ | cut | ⟨one, crashed⟩
  · exact remains_of_torn_header large unchanged cut
  obtain ⟨-, rfl⟩ := blockWrite_some one
  rw [List.take_of_length_le (by simp), Nat.one_mul] at crashed
  have header := Memory.store_holds booted dev.blksz
    (headerBlock dev (primaryHeader dev guid (tableArray dev entries)))
  have later : Memory.Agree (fun a => 2 * dev.blksz ≤ a) old (booted.store dev.blksz
      (headerBlock dev (primaryHeader dev guid (tableArray dev entries)))) := by
    intro a far
    rw [Memory.store_outside _ _ _ _ (Or.inr (by rw [length_headerBlock]; omega))]
    exact unchanged a (by omega)
  generalize booted.store dev.blksz _ = headed at crashed header later
  rcases crashed with _ | cut | ⟨two, crashed⟩
  · exact remains_of_torn_entries large rfl fill header later cut
  obtain ⟨-, rfl⟩ := blockWrite_some two
  -- Nothing that follows is written before the backup.
  have kept : ∀ a < (dev.lba - 33) * dev.blksz,
      left a = headed.store (2 * dev.blksz) (tableArray dev entries) a := by
    intro a before
    apply crashed.apart _ before
    intro w member
    simp only [List.mem_cons, List.not_mem_nil, or_false] at member
    rcases member with rfl | rfl <;> simp only <;> omega
  have room : (2 + tableBlocks dev) * dev.blksz ≤ (dev.lba - 33) * dev.blksz :=
    Nat.mul_le_mul_right _ (by omega)
  rw [Nat.add_mul] at room
  apply Remains.after
  · refine (header.store_apart (Or.inl ?_)).congr fun a inside => (kept a ?_).symm
    · rw [length_headerBlock]
      omega
    · rw [length_headerBlock] at inside
      omega
  · refine (Memory.store_holds headed _ _).congr fun a inside => (kept a ?_).symm
    omega

end Remains

/-! ## What is read -/

/-- What is reported of an array of entries. -/
def tableInfo (dev : BlockDev) (array : List UInt8) (part : Nat) : Option PartitionInfo :=
  let e := GptEntry.decode (bytesAt array ((part - 1) * gptEntryBytes) gptEntryBytes)
  if part < 1 ∨ part > gptEntryNumbers ∨ ¬isPteValid e then none else some (infoOf dev e)

theorem tableInfo_congr (dev : BlockDev) {first second : List UInt8}
    (same : first.take tableBytes = second.take tableBytes) (part : Nat) :
    tableInfo dev first part = tableInfo dev second part := by
  by_cases inside : part < 1 ∨ part > gptEntryNumbers
  · simp only [tableInfo, ← or_assoc, inside, true_or, if_true]
  · have room : (part - 1) * gptEntryBytes + gptEntryBytes ≤ tableBytes := by
      simp only [tableBytes, gptEntryBytes, gptEntryNumbers] at inside ⊢
      omega
    have cut : ∀ array : List UInt8, bytesAt array ((part - 1) * gptEntryBytes) gptEntryBytes =
        bytesAt (array.take tableBytes) ((part - 1) * gptEntryBytes) gptEntryBytes := by
      intro array
      unfold bytesAt
      rw [List.drop_take, List.take_take, Nat.min_eq_left (by omega)]
    simp only [tableInfo, cut first, cut second, same]

section Reading

variable {dev : BlockDev} {disk : Memory} {h : GptHeader} {array : List UInt8}

theorem getPartitionInfoEfi_eq_tableInfo
    (found : (isGptValid dev disk 1).or (isGptValid dev disk (lbaint (dev.lba + 2 ^ 32 - 1))) =
      some (h, array))
    (counted : h.numPartitionEntries = gptEntryNumbers) (part : Nat) :
    getPartitionInfoEfi dev disk part = tableInfo dev array part := by
  unfold getPartitionInfoEfi tableInfo
  rw [found]
  by_cases none : part < 1
  · simp [none]
  · simp only [none, if_false, counted, false_or]

theorem info_of_primary (right : Sealed dev 1 h array) (stands : Stored dev disk 1 h array)
    (part : Nat) : getPartitionInfoEfi dev disk part = tableInfo dev array part := by
  apply getPartitionInfoEfi_eq_tableInfo _ right.numPartitionEntries
  rw [isGptValid_of_stored right stands, Option.some_or]

theorem info_of_backup (large : 67 ≤ dev.lba) (broken : isGptValid dev disk 1 = none)
    (right : Sealed dev (dev.lba - 1) h array) (stands : Stored dev disk (dev.lba - 1) h array)
    (part : Nat) : getPartitionInfoEfi dev disk part = tableInfo dev array part := by
  apply getPartitionInfoEfi_eq_tableInfo _ right.numPartitionEntries
  rw [broken, Option.none_or, lbaint_last large, isGptValid_of_stored right stands]

end Reading

/-! ## Old or new -/

section OldOrNew

variable {dev : BlockDev} {disk old left new : Memory} {guid : Guid} {entries : List GptEntry}

theorem blockWrite_take (dev : BlockDev) (disk : Memory) (start count : Nat) (buffer : List UInt8) :
    blockWrite dev disk start count (buffer.take (count * dev.blksz)) =
      blockWrite dev disk start count buffer := by
  unfold blockWrite
  rw [List.take_take, Nat.min_self]

theorem writeGptTable_tableArray (dev : BlockDev) (disk : Memory) (guid : Guid)
    (entries : List GptEntry) :
    writeGptTable dev disk (freshHeader dev guid) (entryArray dev entries) =
      writeGptTable dev disk (freshHeader dev guid) (tableArray dev entries) := by
  have headers : sealHeader (freshHeader dev guid) (entryArray dev entries) =
      sealHeader (freshHeader dev guid) (tableArray dev entries) :=
    primaryHeader_tableArray dev guid entries
  have buffers : ∀ disk start, blockWrite dev disk start
      (blockCnt ((freshHeader dev guid).numPartitionEntries * gptEntryBytes) dev)
      (tableArray dev entries) = blockWrite dev disk start
      (blockCnt ((freshHeader dev guid).numPartitionEntries * gptEntryBytes) dev)
      (entryArray dev entries) := fun disk start => blockWrite_take dev disk start _ _
  simp only [writeGptTable, headers, buffers]

theorem copies_stored (large : 67 ≤ dev.lba)
    (written : writeGptTable dev disk (freshHeader dev guid) (entryArray dev entries) = some new) :
    Stored dev new 1 (primaryHeader dev guid (tableArray dev entries)) (tableArray dev entries) ∧
      Stored dev new (dev.lba - 1) (backupHeader dev guid (tableArray dev entries))
        (tableArray dev entries) := by
  rw [writeGptTable_tableArray] at written
  exact writeGptTable_stored guid _ large (length_tableArray dev entries) written

theorem perform_isSome (writes : List BlockWrite) (disk : Memory)
    (inside : ∀ w ∈ writes, w.start + w.count ≤ dev.lba) :
    ∃ after, perform dev disk writes = some after := by
  induction writes generalizing disk with
  | nil => exact ⟨disk, rfl⟩
  | cons w rest ih =>
    have written : blockWrite dev disk w.start w.count w.buffer = some _ :=
      if_pos (inside w List.mem_cons_self)
    obtain ⟨final, later⟩ := ih _ fun other member => inside other (List.mem_cons_of_mem w member)
    exact ⟨final, by rw [perform, written, Option.bind_some, later]⟩

theorem writeGptTable_isSome (disk : Memory) (guid : Guid) (entries : List GptEntry)
    (large : 67 ≤ dev.lba) :
    ∃ new, writeGptTable dev disk (freshHeader dev guid) (entryArray dev entries) = some new := by
  have few := (tableBlocks_bounds dev).2.1
  rw [writeGptTable_eq_perform, tableWrites_fresh guid entries large]
  apply perform_isSome
  intro w member
  simp only [List.mem_cons, List.not_mem_nil, or_false] at member
  rcases member with rfl | rfl | rfl | rfl | rfl <;> simp only <;> omega

theorem info_of_written (large : 67 ≤ dev.lba)
    (written : writeGptTable dev disk (freshHeader dev guid) (entryArray dev entries) = some new)
    (part : Nat) : getPartitionInfoEfi dev new part = tableInfo dev (tableArray dev entries) part :=
  info_of_primary (primaryHeader_sealed guid _ large (length_tableArray dev entries))
    (copies_stored large written).1 part

theorem info_of_before {oldGuid : Guid} {oldEntries : List GptEntry} (large : 67 ≤ dev.lba)
    (written : writeGptTable dev disk (freshHeader dev oldGuid) (entryArray dev oldEntries) =
      some old)
    (same : Memory.Agree (fun a => dev.blksz ≤ a) old left) (part : Nat) :
    getPartitionInfoEfi dev left part = tableInfo dev (tableArray dev oldEntries) part := by
  have stored := (copies_stored large written).1
  apply info_of_primary (primaryHeader_sealed oldGuid _ large (length_tableArray dev oldEntries))
  constructor
  · apply stored.header.congr
    intro a inside
    exact same a (by omega)
  · apply stored.entries.congr
    intro a inside
    have place : (primaryHeader dev oldGuid (tableArray dev oldEntries)).partitionEntryLba = 2 :=
      rfl
    rw [place] at inside
    exact same a (by omega)

theorem info_of_untouched {oldGuid : Guid} {oldEntries : List GptEntry} (large : 67 ≤ dev.lba)
    (written : writeGptTable dev disk (freshHeader dev oldGuid) (entryArray dev oldEntries) =
      some old)
    (same : Memory.Agree (fun a => (dev.lba - 33) * dev.blksz ≤ a) old left)
    (broken : isGptValid dev left 1 = none) (part : Nat) :
    getPartitionInfoEfi dev left part = tableInfo dev (tableArray dev oldEntries) part := by
  have stored := (copies_stored large written).2
  apply info_of_backup large broken
    (backupHeader_sealed oldGuid _ large (length_tableArray dev oldEntries))
  constructor
  · apply stored.header.congr
    intro a inside
    have low : (dev.lba - 33) * dev.blksz ≤ (dev.lba - 1) * dev.blksz :=
      Nat.mul_le_mul_right _ (by omega)
    exact same a (by omega)
  · apply stored.entries.congr
    intro a inside
    rw [backupHeader_entryLba oldGuid _ large] at inside
    exact same a inside.1

theorem info_of_mixed {array : List UInt8} (large : 67 ≤ dev.lba)
    (fill : array.length = tableBlocks dev * dev.blksz)
    (header : left.Holds dev.blksz (headerBlock dev (primaryHeader dev guid array))) :
    let mix := left.load (2 * dev.blksz) (tableBlocks dev * dev.blksz)
    (crc32 (mix.take tableBytes) = crc32 (array.take tableBytes) ∧
      ∀ part, getPartitionInfoEfi dev left part = tableInfo dev mix part) ∨
    isGptValid dev left 1 = none := by
  intro mix
  have right := primaryHeader_sealed guid array large fill
  have decided := isGptValid_of_header right (by rwa [Nat.one_mul])
  have place : (primaryHeader dev guid array).partitionEntryLba = 2 := rfl
  rw [place] at decided
  by_cases sums : crc32 (mix.take tableBytes) = crc32 (array.take tableBytes)
  · left
    refine ⟨sums, fun part => ?_⟩
    apply getPartitionInfoEfi_eq_tableInfo _ right.numPartitionEntries
    rw [decided.trans (if_pos sums), Option.some_or]
  · exact Or.inr (decided.trans (if_neg sums))

/-- Power lost anywhere in the writes of a new table leaves a disk on which all partitions are those
of the old table or all are those of the new one. -/
theorem table_old_or_new (dev : BlockDev) (disk old : Memory) (oldGuid strGuid : List UInt8)
    (oldPartitions partitions : List DiskPartition)
    (written : gptRestore dev disk oldGuid oldPartitions = some old) (valid : ValidGpt dev old)
    (h : GptHeader) (entries : List GptEntry) (header : gptFillHeader dev strGuid = some h)
    (filled : gptFillPte h partitions = some entries)
    (told : Distinguished dev (old.load (2 * dev.blksz) (tableBlocks dev * dev.blksz))
      (tableArray dev entries))
    (left : Memory)
    (crashed : Crashed dev (tableWrites dev h (entryArray dev entries)) old left) :
    ∃ new, gptRestore dev old strGuid partitions = some new ∧
      ((∀ part, getPartitionInfoEfi dev left part = getPartitionInfoEfi dev old part) ∨
        ∀ part, getPartitionInfoEfi dev left part = getPartitionInfoEfi dev new part) := by
  have apart := valid.apart
  have large : 67 ≤ dev.lba := by omega
  obtain ⟨guid, known, rfl⟩ := Option.map_eq_some_iff.mp header
  obtain ⟨formerGuid, formerEntries, -, former⟩ := gptRestore_some (by omega) written
  obtain ⟨new, done⟩ := writeGptTable_isSome old guid entries large
  refine ⟨new, by simp only [gptRestore, header, filled, bind, Option.bind_some, done], ?_⟩
  have oldInfo := info_of_written large former
  have newInfo := info_of_written large done
  cases remains_of_crashed guid entries large crashed with
  | before same =>
    left
    intro part
    rw [info_of_before large former same, oldInfo]
  | during header mixed backup =>
    rcases info_of_mixed large (length_tableArray dev entries) header with ⟨sums, info⟩ | broken
    · right
      intro part
      rw [info, newInfo]
      exact tableInfo_congr dev (told _ mixed sums) part
    · left
      intro part
      rw [info_of_untouched large former backup broken, oldInfo]
  | after header stands =>
    right
    intro part
    rw [newInfo]
    apply info_of_primary (primaryHeader_sealed guid _ large (length_tableArray dev entries))
    exact ⟨by rwa [Nat.one_mul], stands⟩

end OldOrNew

/-! ## A checksum that tells apart -/

/-- An index of `crc_table` from the first byte of its entry. -/
def crcIndex (top : UInt32) : UInt32 :=
  ((List.range 8).foldl
    (fun (c : UInt32) _ => if c >>> 31 = 1 then ((c ^^^ 0xedb88320) <<< 1) ||| 1 else c <<< 1)
    (top <<< 24)) &&& 255

theorem crcIndex_crcTable : ∀ n < 256, crcIndex (crcTable (UInt32.ofNat n) >>> 24) =
    UInt32.ofNat n := by
  decide +kernel

def crcStep (crc : UInt32) (x : UInt8) : UInt32 :=
  crcTable ((crc ^^^ x.toUInt32) &&& 255) ^^^ (crc >>> 8)

theorem and_255 (c : UInt32) : c &&& 255 = UInt32.ofNat (c.toNat % 256) := by
  have small : c.toNat % 256 < UInt32.size := lt_of_lt_of_le (Nat.mod_lt _ (by decide)) (by decide)
  apply UInt32.toNat_inj.mp
  rw [UInt32.toNat_and, UInt32.toNat_ofNat_of_lt' small]
  exact Nat.and_two_pow_sub_one_eq_mod _ 8

theorem xor_255 (a b : UInt32) : (a ^^^ b) &&& 255 = (a &&& 255) ^^^ (b &&& 255) := by
  apply UInt32.toNat_inj.mp
  simp only [UInt32.toNat_and, UInt32.toNat_xor]
  exact Nat.and_xor_distrib_right

theorem crcIndex_crcStep (crc : UInt32) (x : UInt8) :
    crcIndex (crcStep crc x >>> 24) = (crc ^^^ x.toUInt32) &&& 255 := by
  have gone : (crc >>> 8) >>> 24 = 0 := by
    have bound := crc.toNat_lt
    apply UInt32.toNat_inj.mp
    simp [Nat.shiftRight_eq_div_pow]
    omega
  rw [crcStep, UInt32.shiftRight_xor, gone, UInt32.xor_zero, and_255]
  exact crcIndex_crcTable _ (Nat.mod_lt _ (by decide))

variable {c : UInt32} {x y : UInt8}

theorem crcStep_injective_left {d : UInt32} (same : crcStep c x = crcStep d x) :
    c = d := by
  have index : (c ^^^ x.toUInt32) &&& 255 = (d ^^^ x.toUInt32) &&& 255 := by
    rw [← crcIndex_crcStep, ← crcIndex_crcStep, same]
  have high : c >>> 8 = d >>> 8 := by
    rw [crcStep, crcStep, index] at same
    exact UInt32.xor_right_inj _ |>.mp same
  have low : c &&& 255 = d &&& 255 := by
    rw [xor_255, xor_255] at index
    exact UInt32.xor_left_inj _ |>.mp index
  rw [and_255, and_255] at low
  have lows := congrArg UInt32.toNat low
  have highs := congrArg UInt32.toNat high
  simp [Nat.shiftRight_eq_div_pow] at lows highs
  apply UInt32.toNat_inj.mp
  omega

theorem crcStep_injective_right (same : crcStep c x = crcStep c y) :
    x = y := by
  have index : (c ^^^ x.toUInt32) &&& 255 = (c ^^^ y.toUInt32) &&& 255 := by
    rw [← crcIndex_crcStep, ← crcIndex_crcStep, same]
  rw [xor_255, xor_255] at index
  have low := UInt32.xor_right_inj _ |>.mp index
  rw [and_255, and_255] at low
  have lows := congrArg UInt32.toNat low
  have bound := x.toNat_lt
  have bound' := y.toNat_lt
  simp at lows
  apply UInt8.toNat_inj.mp
  omega

theorem foldl_crcStep_injective (rest : List UInt8) {d : UInt32}
    (same : rest.foldl crcStep c = rest.foldl crcStep d) : c = d := by
  induction rest generalizing c d with
  | nil => exact same
  | cons z rest ih => exact crcStep_injective_left (ih same)

theorem crc32_one_byte {first rest : List UInt8}
    (same : crc32 (first ++ x :: rest) = crc32 (first ++ y :: rest)) : x = y := by
  have folds := (UInt32.xor_left_inj _).mp same
  rw [List.foldl_append, List.foldl_append] at folds
  exact crcStep_injective_right (foldl_crcStep_injective rest folds)

theorem eq_of_blocks {first second : List UInt8} {count size : Nat} (wide : 0 < size)
    (firstFill : first.length = count * size) (secondFill : second.length = count * size)
    (same : ∀ k < count, bytesAt first (k * size) size = bytesAt second (k * size) size) :
    first = second := by
  refine List.ext_getElem (by rw [firstFill, secondFill]) fun i inside _ => ?_
  have block : i / size < count := Nat.div_lt_of_lt_mul (by rw [Nat.mul_comm, ← firstFill]; exact inside)
  have offset : i % size < size := Nat.mod_lt i wide
  have split : i / size * size + i % size = i := Nat.div_add_mod' i size
  have bytes := congrArg (·[i % size]?) (same _ block)
  simp only [bytesAt, List.getElem?_take_of_lt offset, List.getElem?_drop, split] at bytes
  rw [← Option.some.injEq, ← List.getElem?_eq_getElem, ← List.getElem?_eq_getElem]
  exact bytes

/-- Arrays that differ in one byte of their first block are told apart from their mixes. -/
theorem distinguished_of_one_byte {dev : BlockDev} {first rest : List UInt8}
    (early : first.length < dev.blksz) (entry : first.length < tableBytes)
    (fill : ∀ z, (first ++ z :: rest).length = tableBlocks dev * dev.blksz) :
    Distinguished dev (first ++ x :: rest) (first ++ y :: rest) := by
  have wide := dev.wide
  intro mix mixed sums
  have later : ∀ k, 0 < k → bytesAt (first ++ x :: rest) (k * dev.blksz) dev.blksz =
      bytesAt (first ++ y :: rest) (k * dev.blksz) dev.blksz := by
    intro k positive
    have far : dev.blksz ≤ k * dev.blksz := Nat.le_mul_of_pos_left _ positive
    have split : ∀ z, first ++ z :: rest = (first ++ [z]) ++ rest := fun z => by simp
    have length : ∀ z, (first ++ [z]).length = first.length + 1 := fun z => by simp
    rw [split x, split y, bytesAt_skip rest (by rw [length]; omega),
      bytesAt_skip rest (by rw [length]; omega), length, length]
  -- The first block decides which of the two arrays the mix is.
  rcases mixed.blocks 0 (tableBlocks_bounds dev).2.2 with old | new
  · have whole : mix = first ++ x :: rest := by
      apply eq_of_blocks (by omega) mixed.fill (fill x)
      intro k inside
      rcases Nat.eq_zero_or_pos k with rfl | positive
      · exact old
      · rcases mixed.blocks k inside with same | same
        · exact same
        · rw [same, later k positive]
    have cut : ∀ z, (first ++ z :: rest).take tableBytes =
        first ++ z :: rest.take (tableBytes - first.length - 1) := by
      intro z
      have left : tableBytes - first.length = (tableBytes - first.length - 1) + 1 := by omega
      rw [List.take_append, List.take_of_length_le (le_of_lt entry), left, List.take_succ_cons]
      simp
    rw [whole, cut, cut] at sums
    rw [whole, crc32_one_byte sums]
  · have whole : mix = first ++ y :: rest := by
      apply eq_of_blocks (by omega) mixed.fill (fill y)
      intro k inside
      rcases Nat.eq_zero_or_pos k with rfl | positive
      · exact new
      · rcases mixed.blocks k inside with same | same
        · rw [same, later k positive]
        · exact same
    rw [whole]

theorem sampleSize_fits : 100 < 2 ^ 32 := by decide

/-- A table with one partition of 100 blocks. -/
def sampleNamed (letter : UInt8) : DiskPartition :=
  samplePartition 0 100 letter (Nat.two_pow_pos 32) sampleSize_fits

def sampleGuid : Guid := ⟨List.replicate 16 0, List.length_replicate⟩

def sampleEntry (letter : UInt8) : GptEntry := fillEntry (sampleNamed letter) sampleGuid 34 133

theorem sampleEntry_filled (letter : UInt8) :
    gptFillPte (freshHeader sampleDev sampleGuid) [sampleNamed letter] =
      some [sampleEntry letter] := by
  have known : uuidStrToBin sampleUuid .std = some sampleGuid := by decide
  simp [gptFillPte, freshHeader, sampleDev, lbaint, fillPteLoop, sampleNamed,
    samplePartition, known,
    sampleEntry]

theorem sampleEntry_encode (letter : UInt8) : (sampleEntry letter).encode =
    (sampleEntry 0).encode.take 56 ++ letter :: (sampleEntry 0).encode.drop 57 := by
  have low : leBytes 2 letter.toNat = [letter, 0] := by
    have small := letter.toNat_lt
    have high : letter.toNat / 256 = 0 := by omega
    simp [leBytes, high]
  have name : (sampleEntry letter).partitionName =
      letter.toNat :: (sampleEntry 0).partitionName.drop 1 := rfl
  have encoded : (sampleEntry letter).encode = (sampleEntry 0).encode.take 56 ++
      (sampleEntry letter).partitionName.flatMap (leBytes 2) := rfl
  rw [encoded, name, List.flatMap_cons, low]
  rfl

theorem sample_tableArray : ∃ rest, ∀ letter, tableArray sampleDev [sampleEntry letter] =
    (sampleEntry 0).encode.take 56 ++ letter :: rest := by
  refine ⟨(sampleEntry 0).encode.drop 57 ++ ((List.replicate (gptEntryNumbers - 1)
    GptEntry.unused).flatMap GptEntry.encode ++ List.replicate (blockCnt (gptEntryNumbers *
    gptEntryBytes) sampleDev * sampleDev.blksz - gptEntryNumbers * gptEntryBytes) 0),
    fun letter => ?_⟩
  have few : [sampleEntry letter].length ≤ gptEntryNumbers := by simp [gptEntryNumbers]
  rw [tableArray, ← length_entryArray sampleDev few, List.take_length, entryArray,
    List.flatMap_append, List.flatMap_singleton, sampleEntry_encode, List.length_singleton]
  simp only [List.append_assoc, List.cons_append]

theorem BlockWrite.Torn.unbegun (dev : BlockDev) (disk : Memory) (w : BlockWrite) :
    w.Torn dev disk disk := fun _ => Or.inl fun _ _ => rfl

/-- Power is lost when the header of a new table stands in front of the old entries. -/
theorem table_old_or_new_sample :
    ∃ old left new, gptRestore sampleDev Memory.blank sampleUuid [sampleNamed 97] = some old ∧
      left.Holds 512 (headerBlock sampleDev
        (primaryHeader sampleDev sampleGuid (tableArray sampleDev [sampleEntry 99]))) ∧
      left.Holds 1024 (tableArray sampleDev [sampleEntry 97]) ∧
      gptRestore sampleDev old sampleUuid [sampleNamed 99] = some new ∧
      ((∀ part, getPartitionInfoEfi sampleDev left part = getPartitionInfoEfi sampleDev old part) ∨
        ∀ part, getPartitionInfoEfi sampleDev left part =
          getPartitionInfoEfi sampleDev new part) := by
  have header : gptFillHeader sampleDev sampleUuid = some (freshHeader sampleDev sampleGuid) := by
    have known : uuidStrToBin sampleUuid .guid = some sampleGuid := by decide +kernel
    rw [gptFillHeader, known, Option.map_some]
  have large : 67 ≤ sampleDev.lba := by decide
  obtain ⟨old, written⟩ :=
    @writeGptTable_isSome sampleDev Memory.blank sampleGuid [sampleEntry 97] large
  have restored : gptRestore sampleDev Memory.blank sampleUuid [sampleNamed 97] = some old := by
    simp only [gptRestore, header, sampleEntry_filled, bind, Option.bind_some, written]
  obtain ⟨primary, backup⟩ := copies_stored large written
  have sealedFirst := primaryHeader_sealed sampleGuid _ large
    (length_tableArray sampleDev [sampleEntry 97])
  have sealedLast := backupHeader_sealed sampleGuid _ large
    (length_tableArray sampleDev [sampleEntry 97])
  have valid : ValidGpt sampleDev old := by
    constructor
    · rw [isGptValid_of_stored sealedFirst primary, Option.isSome_some]
    · rw [isGptValid_of_stored sealedLast backup, Option.isSome_some]
    · decide
  -- The two arrays differ in the first letter of the name.
  have told : Distinguished sampleDev
      (old.load (2 * sampleDev.blksz) (tableBlocks sampleDev * sampleDev.blksz))
      (tableArray sampleDev [sampleEntry 99]) := by
    have loaded := primary.entries.load
    rw [sealedFirst.entriesFill] at loaded
    have place : (primaryHeader sampleDev sampleGuid
        (tableArray sampleDev [sampleEntry 97])).partitionEntryLba = 2 := rfl
    rw [place] at loaded
    obtain ⟨rest, arrays⟩ := sample_tableArray
    rw [loaded, arrays, arrays]
    apply distinguished_of_one_byte (by decide) (by decide)
    intro letter
    rw [← arrays, length_tableArray]
  have crashed : ∃ left, Crashed sampleDev (tableWrites sampleDev (freshHeader sampleDev sampleGuid)
      (entryArray sampleDev [sampleEntry 99])) old left ∧
      left.Holds 512 (headerBlock sampleDev
        (primaryHeader sampleDev sampleGuid (tableArray sampleDev [sampleEntry 99]))) ∧
      left.Holds 1024 (tableArray sampleDev [sampleEntry 97]) := by
    rw [tableWrites_fresh sampleGuid [sampleEntry 99] large]
    refine ⟨_, Crashed.next (if_pos (by decide)) (Crashed.next (if_pos (by decide))
      (Crashed.torn (BlockWrite.Torn.unbegun _ _ _))), ?_, ?_⟩
    · have whole : ∀ h, (headerBlock sampleDev h).take (1 * sampleDev.blksz) =
          headerBlock sampleDev h := fun h => List.take_of_length_le (by simp)
      rw [whole]
      exact Memory.store_holds _ 512 _
    · apply Memory.Holds.store_apart
      · apply Memory.Holds.store_apart
        · exact primary.entries
        · right
          exact le_trans (Nat.add_le_add_left (List.length_take_le _ _) _) (by decide)
      · right
        exact le_trans (Nat.add_le_add_left (List.length_take_le _ _) _) (by decide)
  obtain ⟨left, crashed, newHeader, oldEntries⟩ := crashed
  obtain ⟨new, done, either⟩ := table_old_or_new sampleDev Memory.blank old sampleUuid sampleUuid
    [sampleNamed 97] [sampleNamed 99] restored valid _ _ header (sampleEntry_filled 99) told left
    crashed
  exact ⟨old, left, new, restored, newHeader, oldEntries, done, either⟩

end HrppBoot.Disk
