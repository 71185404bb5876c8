import HrppBoot.Lib.Memory

/-!
# The OS image loader

`osBoot_fat_fsload_bin` reads a whole NK.bin into a staging area of RAM and then walks the
staged bytes: a signature, an image header, and records that are copied one by one to the
window the OS runs from. This module translates that function. The FAT layer and the block
device below it are a parameter; the staging area, the window and the rest of the 256 MB of
RAM are one memory, because the walk reads and writes the same RAM.

A memory access that leaves RAM has no result in this model: the routine ends in `fault`,
where the processor takes a data abort. Every transfer is logged, also one that faults.
Progress messages and LEDs are left out.
-/

open ByteMemory

namespace HrppBoot.Board

/-- First address of the 256 MB of RAM (`PHYS_SDRAM`). -/
def ramStart : Nat := 0x10000000

/-- End of RAM: `PHYS_SDRAM_SIZE` bytes from its start. -/
def ramEnd : Nat := 0x20000000

/-- `IMAGE_BOOT_NKIMAGE_RAM_PA_START`: the window the OS image is built in. -/
def nkImageRamStart : Nat := 0x10600000

/-- `IMAGE_BOOT_NKIMAGE_RAM_PA_STORE_START`: where the file is staged. -/
def nkImageStoreStart : Nat := 0x18000000

/-- `IMAGE_BOOT_NKIMAGE_NOR_SIZE`: 120 MB, the size of the window. -/
def nkImageNorSize : Nat := 120 * 1024 * 1024

/-- `READ_FILE_MAX_SIZE_120`: the longest file that is staged. -/
def readFileMaxSize120 : Nat := 120 * 1024 * 1024

/-- End of the window. -/
def nkImageRamEnd : Nat := nkImageRamStart + nkImageNorSize

/-- The range is backed by RAM. -/
def InRam (address count : Nat) : Prop := ramStart ≤ address ∧ address + count ≤ ramEnd

instance (address count : Nat) : Decidable (InRam address count) :=
  inferInstanceAs (Decidable (_ ∧ _))

/-- How a routine ends: with a return code, or in a data abort. -/
inductive Exit where
  | ret (code : Int)
  | fault
  deriving DecidableEq, Repr

/-- Image header: load address and length of the whole image. -/
structure NkHdr where
  dwAddress : UInt32
  dwSize : UInt32
  deriving DecidableEq, Repr

/-- Record header: where its data goes, how many bytes follow, and their sum. -/
structure MdHdr where
  dwAddress : UInt32
  dwSize : UInt32
  dwSum : UInt32
  deriving DecidableEq, Repr

/-- The record that ends the walk has neither an address nor a sum. -/
def MdHdr.IsTerminator (header : MdHdr) : Prop := header.dwAddress = 0 ∧ header.dwSum = 0

instance (header : MdHdr) : Decidable header.IsTerminator := inferInstanceAs (Decidable (_ ∧ _))

/-- `dwAddress - 0x70000000` in 32-bit arithmetic: images are linked at 0x80600000 and built
at 0x10600000. -/
def MdHdr.pBuffer (header : MdHdr) : Nat := (header.dwAddress - 0x70000000).toNat

/-- The image header at an address. -/
def nkHdrAt (m : Memory) (p : Nat) : NkHdr := ⟨m.word32 p, m.word32 (p + 4)⟩

/-- The record header at an address. -/
def mdHdrAt (m : Memory) (p : Nat) : MdHdr := ⟨m.word32 p, m.word32 (p + 4), m.word32 (p + 8)⟩

/-- `"B000FF\n"`. -/
def nkSignature : List UInt8 := [0x42, 0x30, 0x30, 0x30, 0x46, 0x46, 0x0a]

/-- The loop of `ataMakeSum`, with the sum so far. -/
def ataMakeSumFrom (m : Memory) : Nat → Nat → UInt32 → UInt32
  | _, 0, sum => sum
  | p, dwSize + 1, sum => ataMakeSumFrom m (p + 1) dwSize (sum + (m p).toUInt32)

/-- `ataMakeSum`: the 32-bit sum of `dwSize` bytes. -/
def ataMakeSum (m : Memory) (pStart dwSize : Nat) : UInt32 := ataMakeSumFrom m pStart dwSize 0

/-- What the walk carries from record to record, with the transfers it has made so far. -/
structure LoadState where
  mem : Memory
  pCurrentAddr : Nat
  dwReadSize : Nat
  ramInit : Bool
  /-- Ranges read through `pCurrentAddr`, latest first. -/
  reads : List Span
  writes : List Span
  records : List MdHdr

namespace LoadState

/-- The record header at `pCurrentAddr`. -/
def header (s : LoadState) : MdHdr := mdHdrAt s.mem s.pCurrentAddr

/-- Log a range about to be read at `pCurrentAddr`. -/
def logRead (s : LoadState) (count : Nat) : LoadState :=
  { s with reads := ⟨s.pCurrentAddr, count⟩ :: s.reads }

/-- Log a range about to be written. -/
def logWrite (s : LoadState) (start count : Nat) : LoadState :=
  { s with writes := ⟨start, count⟩ :: s.writes }

end LoadState

/-- Outcome of one part of the walk. -/
inductive Step where
  | next (s : LoadState)
  | stop (exit : Exit) (s : LoadState)

/-- Size of one transfer of the copy loop: at most 0x40000 bytes. -/
def dwReadReqSize (dwSize : Nat) : Nat := if 0x40000 ≤ dwSize then 0x40000 else dwSize

theorem dwReadReqSize_bounds (dwSize : Nat) :
    dwReadReqSize dwSize ≤ dwSize ∧ (dwSize ≠ 0 → 0 < dwReadReqSize dwSize) := by
  rw [dwReadReqSize]
  split <;> omega

/-- The copy loop of one record (`LoadModule`): transfers of at most 0x40000 bytes from the
staged file to `pBuffer`, until `dwSize` is used up. -/
def loadModule (s : LoadState) (pBuffer dwSize : Nat) : Step :=
  if dwSize = 0 then .next s
  else
    let count := dwReadReqSize dwSize
    let logged := (s.logRead count).logWrite pBuffer count
    if InRam pBuffer count ∧ InRam s.pCurrentAddr count then
      loadModule
        { logged with
          mem := s.mem.copy pBuffer s.pCurrentAddr count
          pCurrentAddr := s.pCurrentAddr + count
          dwReadSize := s.dwReadSize + count }
        (pBuffer + count) (dwSize - count)
    else .stop .fault logged
termination_by dwSize
decreasing_by
  have := dwReadReqSize_bounds dwSize
  omega

/-- The one-shot pre-fill: `memset(pBuffer, 0xff, IMAGE_BOOT_NKIMAGE_NOR_SIZE)` at the
destination of the first record. -/
def ramInitial (s : LoadState) (pBuffer : Nat) : Step :=
  if s.ramInit then .next s
  else
    let logged := s.logWrite pBuffer nkImageNorSize
    if InRam pBuffer nkImageNorSize then
      .next { logged with mem := s.mem.fill pBuffer nkImageNorSize 0xff, ramInit := true }
    else .stop .fault logged

/-- The checks after the copy: the number of bytes copied, and the sum of the bytes now at the
destination. -/
def checkModule (header : MdHdr) (s : LoadState) : Step :=
  if s.dwReadSize ≠ header.dwSize.toNat then .stop (.ret (-1)) s
  else if header.dwSum ≠ ataMakeSum s.mem header.pBuffer header.dwSize.toNat then
    .stop (.ret (-3)) s
  else .next s

/-- Pre-fill if needed, copy the data and check it. -/
def loadRecord (s : LoadState) (header : MdHdr) : Step :=
  match ramInitial s header.pBuffer with
  | .stop exit s => .stop exit s
  | .next s =>
    match loadModule { s with dwReadSize := 0 } header.pBuffer header.dwSize.toNat with
    | .stop exit s => .stop exit s
    | .next s => checkModule header s

/-- One turn of `while (1)`: read a record header, leave the loop at a terminator, load the
record otherwise. -/
def recordStep (s : LoadState) : Step :=
  let logged := s.logRead 12
  if InRam s.pCurrentAddr 12 then
    let advanced := { logged with pCurrentAddr := s.pCurrentAddr + 12 }
    if s.header.IsTerminator then .stop (.ret 0) advanced
    else loadRecord { advanced with records := s.header :: s.records } s.header
  else .stop .fault logged

/-! ## What one turn does

The copy loop is a chain of transfers; `copyChunks` and `chunkSpans` are its effect on RAM and
on the log. With them, a turn that takes a record has the explicit result `placed`, and the
loop below is never unfolded again. -/

/-- RAM after the transfers of one record. -/
def copyChunks (m : Memory) (dst src dwSize : Nat) : Memory :=
  if dwSize = 0 then m
  else
    let count := dwReadReqSize dwSize
    copyChunks (m.copy dst src count) (dst + count) (src + count) (dwSize - count)
termination_by dwSize
decreasing_by
  have := dwReadReqSize_bounds dwSize
  omega

/-- The ranges of the transfers of one record, latest first. -/
def chunkSpans (start dwSize : Nat) : List Span :=
  if dwSize = 0 then []
  else
    let count := dwReadReqSize dwSize
    chunkSpans (start + count) (dwSize - count) ++ [⟨start, count⟩]
termination_by dwSize
decreasing_by
  have := dwReadReqSize_bounds dwSize
  omega

theorem chunkSpans_inside (start dwSize low high : Nat) :
    (∀ span ∈ chunkSpans start dwSize, span.Inside low high) ↔
      Span.Within ⟨start, dwSize⟩ low high := by
  induction start, dwSize using chunkSpans.induct with
  | case1 start =>
    rw [chunkSpans]
    simp [Span.Within]
  | case2 start dwSize nonzero count ih =>
    have positive : 0 < count := (dwReadReqSize_bounds dwSize).2 nonzero
    have small : count ≤ dwSize := (dwReadReqSize_bounds dwSize).1
    rw [chunkSpans, if_neg nonzero, List.forall_mem_append, ih, List.forall_mem_singleton]
    change _ ∧ Span.Inside ⟨start, count⟩ low high ↔ _
    simp only [Span.Within, Span.Inside]
    omega

/-- A copy loop whose ranges are in RAM makes all its transfers. -/
theorem loadModule_done (s : LoadState) (pBuffer dwSize : Nat)
    (target : Span.Within ⟨pBuffer, dwSize⟩ ramStart ramEnd)
    (source : Span.Within ⟨s.pCurrentAddr, dwSize⟩ ramStart ramEnd) :
    loadModule s pBuffer dwSize = .next
      { s with
        mem := copyChunks s.mem pBuffer s.pCurrentAddr dwSize
        pCurrentAddr := s.pCurrentAddr + dwSize
        dwReadSize := s.dwReadSize + dwSize
        reads := chunkSpans s.pCurrentAddr dwSize ++ s.reads
        writes := chunkSpans pBuffer dwSize ++ s.writes } := by
  induction dwSize using Nat.strongRecOn generalizing s pBuffer with
  | ind dwSize ih =>
    rw [loadModule, copyChunks, chunkSpans, chunkSpans]
    by_cases zero : dwSize = 0
    · simp [zero]
    · obtain ⟨small, positive⟩ := dwReadReqSize_bounds dwSize
      have positive := positive zero
      simp only [Span.Within, Span.Inside, zero, false_or] at target source
      have inRam : InRam pBuffer (dwReadReqSize dwSize) ∧
          InRam s.pCurrentAddr (dwReadReqSize dwSize) := by
        simp only [InRam]
        omega
      simp only [zero, ↓reduceIte, if_pos inRam]
      rw [ih (dwSize - dwReadReqSize dwSize) (by omega)]
      · simp only [LoadState.logWrite, LoadState.logRead, List.append_assoc, List.singleton_append,
          Step.next.injEq, LoadState.mk.injEq, true_and, and_true]
        omega
      · simp only [Span.Within, Span.Inside]
        omega
      · simp only [Span.Within, Span.Inside]
        omega

/-- A copy loop with a range outside RAM ends in a fault, and has touched nothing but the
record's own source and destination. -/
theorem loadModule_fault (s : LoadState) (pBuffer dwSize : Nat)
    (outside : ¬(Span.Within ⟨pBuffer, dwSize⟩ ramStart ramEnd ∧
      Span.Within ⟨s.pCurrentAddr, dwSize⟩ ramStart ramEnd)) :
    ∃ s', loadModule s pBuffer dwSize = .stop .fault s' ∧ s'.records = s.records ∧
      (∀ span ∈ s'.writes, span ∈ s.writes ∨ span.Inside pBuffer (pBuffer + dwSize)) ∧
      (∀ span ∈ s'.reads, span ∈ s.reads ∨
        span.Inside s.pCurrentAddr (s.pCurrentAddr + dwSize)) ∧
      s.writes ⊆ s'.writes ∧ s.reads ⊆ s'.reads := by
  induction dwSize using Nat.strongRecOn generalizing s pBuffer with
  | ind dwSize ih =>
    rw [loadModule]
    by_cases zero : dwSize = 0
    · exact absurd ⟨Or.inl zero, Or.inl zero⟩ outside
    · obtain ⟨small, positive⟩ := dwReadReqSize_bounds dwSize
      have positive := positive zero
      simp only [zero, ↓reduceIte]
      split
      · rename_i inRam
        simp only [InRam] at inRam
        obtain ⟨s', stopped, records, writes, reads, keptWrites, keptReads⟩ :=
          ih (dwSize - dwReadReqSize dwSize) (by omega)
          { (s.logRead (dwReadReqSize dwSize)).logWrite pBuffer (dwReadReqSize dwSize) with
            mem := s.mem.copy pBuffer s.pCurrentAddr (dwReadReqSize dwSize)
            pCurrentAddr := s.pCurrentAddr + dwReadReqSize dwSize
            dwReadSize := s.dwReadSize + dwReadReqSize dwSize }
          (pBuffer + dwReadReqSize dwSize) (by
            simp only [Span.Within, Span.Inside, zero, false_or] at outside ⊢
            omega)
        refine ⟨s', stopped, records, fun span listed => ?_, fun span listed => ?_,
          fun span listed => keptWrites (List.mem_cons_of_mem _ listed),
          fun span listed => keptReads (List.mem_cons_of_mem _ listed)⟩
        · rcases writes span listed with old | new
          · rcases List.mem_cons.mp old with rfl | old
            · exact .inr ⟨Nat.le_refl _, by simp only; omega⟩
            · exact .inl old
          · simp only [Span.Inside] at new ⊢
            omega
        · rcases reads span listed with old | new
          · rcases List.mem_cons.mp old with rfl | old
            · exact .inr ⟨Nat.le_refl _, by simp only; omega⟩
            · exact .inl old
          · simp only [Span.Inside] at new ⊢
            omega
      · refine ⟨_, rfl, rfl, fun span listed => ?_, fun span listed => ?_,
          List.subset_cons_self _ _, List.subset_cons_self _ _⟩
        · rcases List.mem_cons.mp listed with rfl | old
          · exact .inr ⟨Nat.le_refl _, by simp only; omega⟩
          · exact .inl old
        · rcases List.mem_cons.mp listed with rfl | old
          · exact .inr ⟨Nat.le_refl _, by simp only; omega⟩
          · exact .inl old

namespace LoadState

/-- RAM when the copy of the record starts. -/
def filled (s : LoadState) : Memory :=
  if s.ramInit then s.mem else s.mem.fill s.header.pBuffer nkImageNorSize 0xff

/-- The log of writes when the copy of the record starts. -/
def filledWrites (s : LoadState) : List Span :=
  if s.ramInit then s.writes else ⟨s.header.pBuffer, nkImageNorSize⟩ :: s.writes

/-- Where the staged data of the record ends. -/
def recordEnd (s : LoadState) : Nat := s.pCurrentAddr + 12 + s.header.dwSize.toNat

/-- Pre-fill, destination and source of the record are all in RAM. -/
structure Placeable (s : LoadState) : Prop where
  fill : s.ramInit = true ∨ InRam s.header.pBuffer nkImageNorSize
  target : Span.Within ⟨s.header.pBuffer, s.header.dwSize.toNat⟩ ramStart ramEnd
  source : Span.Within ⟨s.pCurrentAddr + 12, s.header.dwSize.toNat⟩ ramStart ramEnd

/-- The state after the record has been copied. -/
def placed (s : LoadState) : LoadState where
  mem := copyChunks s.filled s.header.pBuffer (s.pCurrentAddr + 12) s.header.dwSize.toNat
  pCurrentAddr := s.recordEnd
  dwReadSize := s.header.dwSize.toNat
  ramInit := true
  reads := chunkSpans (s.pCurrentAddr + 12) s.header.dwSize.toNat ++
    ⟨s.pCurrentAddr, 12⟩ :: s.reads
  writes := chunkSpans s.header.pBuffer s.header.dwSize.toNat ++ s.filledWrites
  records := s.header :: s.records

/-- The sum in the header is the sum of the copied bytes. -/
def SumMatches (s : LoadState) : Prop :=
  s.header.dwSum = ataMakeSum s.placed.mem s.header.pBuffer s.header.dwSize.toNat

end LoadState

theorem recordStep_placeable (s : LoadState) (inRam : InRam s.pCurrentAddr 12)
    (record : ¬s.header.IsTerminator) (placeable : s.Placeable) :
    (s.SumMatches ∧ recordStep s = .next s.placed) ∨
      (¬s.SumMatches ∧ recordStep s = .stop (.ret (-3)) s.placed) := by
  have step : recordStep s = checkModule s.header s.placed := by
    simp only [recordStep, inRam, record, ↓reduceIte]
    cases init : s.ramInit with
    | true =>
      simp only [loadRecord, ramInitial, LoadState.logRead, init, ↓reduceIte]
      rw [loadModule_done _ _ _ placeable.target placeable.source]
      simp [LoadState.placed, LoadState.filled, LoadState.filledWrites, LoadState.recordEnd, init]
    | false =>
      have fill := placeable.fill.resolve_left (by simp [init])
      simp only [loadRecord, ramInitial, LoadState.logRead, LoadState.logWrite, init,
        Bool.false_eq_true, ↓reduceIte, fill]
      rw [loadModule_done _ _ _ placeable.target placeable.source]
      simp [LoadState.placed, LoadState.filled, LoadState.filledWrites, LoadState.recordEnd, init]
  rw [step, checkModule, if_neg (by simp [LoadState.placed])]
  by_cases sum : s.SumMatches
  · exact .inl ⟨sum, if_neg (not_not.mpr sum)⟩
  · exact .inr ⟨sum, if_pos sum⟩

/-- A record that is not placeable faults; only its own pre-fill, source and destination were
touched. -/
theorem recordStep_unplaceable (s : LoadState) (inRam : InRam s.pCurrentAddr 12)
    (record : ¬s.header.IsTerminator) (unplaceable : ¬s.Placeable) :
    ∃ s', recordStep s = .stop .fault s' ∧ s'.records = s.header :: s.records ∧
      (∀ span ∈ s'.writes, span ∈ s.filledWrites ∨
        span.Inside s.header.pBuffer (s.header.pBuffer + s.header.dwSize.toNat)) ∧
      (∀ span ∈ s'.reads, span ∈ s.reads ∨ span.Inside s.pCurrentAddr s.recordEnd) ∧
      s.filledWrites ⊆ s'.writes ∧ s.reads ⊆ s'.reads := by
  simp only [recordStep, inRam, record, ↓reduceIte]
  by_cases fill : s.ramInit = true ∨ InRam s.header.pBuffer nkImageNorSize
  · have started : ∃ m, ramInitial { s.logRead 12 with
        pCurrentAddr := s.pCurrentAddr + 12, records := s.header :: s.records }
        s.header.pBuffer = .next { s.logRead 12 with
          mem := m, pCurrentAddr := s.pCurrentAddr + 12, ramInit := true
          writes := s.filledWrites, records := s.header :: s.records } := by
      cases init : s.ramInit with
      | true => exact ⟨s.mem, by simp [ramInitial, LoadState.logRead, LoadState.filledWrites, init]⟩
      | false =>
        have fits := fill.resolve_left (by simp [init])
        exact ⟨s.mem.fill s.header.pBuffer nkImageNorSize 0xff,
          by simp [ramInitial, LoadState.logRead, LoadState.logWrite, LoadState.filledWrites, init,
            fits]⟩
    obtain ⟨m, started⟩ := started
    obtain ⟨s', stopped, records, writes, reads, keptWrites, keptReads⟩ := loadModule_fault
      { s.logRead 12 with
        mem := m, pCurrentAddr := s.pCurrentAddr + 12, dwReadSize := 0, ramInit := true
        writes := s.filledWrites, records := s.header :: s.records }
      s.header.pBuffer s.header.dwSize.toNat
      (fun both => unplaceable ⟨fill, both.1, both.2⟩)
    refine ⟨s', by simp only [loadRecord, started, stopped], records, writes, ?_, keptWrites,
      fun span listed => keptReads (List.mem_cons_of_mem _ listed)⟩
    intro span listed
    rcases reads span listed with old | new
    · rcases List.mem_cons.mp old with rfl | old
      · exact .inr ⟨Nat.le_refl _, by simp only [LoadState.recordEnd]; omega⟩
      · exact .inl old
    · simp only [Span.Inside, LoadState.recordEnd] at new ⊢
      omega
  · obtain ⟨pending, outside⟩ := not_or.mp fill
    have pending : s.ramInit = false := by simpa using pending
    refine ⟨{ s.logRead 12 with
        pCurrentAddr := s.pCurrentAddr + 12, writes := s.filledWrites
        records := s.header :: s.records }, ?_, rfl, fun span listed => .inl listed, ?_,
        fun span listed => listed, List.subset_cons_self _ _⟩
    · simp [loadRecord, ramInitial, LoadState.logRead, LoadState.logWrite, LoadState.filledWrites,
        pending, outside]
    · intro span listed
      rcases List.mem_cons.mp listed with rfl | old
      · exact .inr ⟨Nat.le_refl _, by simp only [LoadState.recordEnd]; omega⟩
      · exact .inl old

/-- Everything one turn of the loop can do. -/
inductive Turn (s : LoadState) : Step → Prop where
  | headerFault (outside : ¬InRam s.pCurrentAddr 12) : Turn s (.stop .fault (s.logRead 12))
  | terminator (inRam : InRam s.pCurrentAddr 12) (ends : s.header.IsTerminator) :
      Turn s (.stop (.ret 0) { s.logRead 12 with pCurrentAddr := s.pCurrentAddr + 12 })
  | next (inRam : InRam s.pCurrentAddr 12) (record : ¬s.header.IsTerminator)
      (placeable : s.Placeable) (sum : s.SumMatches) : Turn s (.next s.placed)
  | badSum (inRam : InRam s.pCurrentAddr 12) (record : ¬s.header.IsTerminator)
      (placeable : s.Placeable) (sum : ¬s.SumMatches) : Turn s (.stop (.ret (-3)) s.placed)
  | recordFault (s' : LoadState) (inRam : InRam s.pCurrentAddr 12)
      (record : ¬s.header.IsTerminator) (unplaceable : ¬s.Placeable)
      (records : s'.records = s.header :: s.records)
      (writes : ∀ span ∈ s'.writes, span ∈ s.filledWrites ∨
        span.Inside s.header.pBuffer (s.header.pBuffer + s.header.dwSize.toNat))
      (reads : ∀ span ∈ s'.reads, span ∈ s.reads ∨ span.Inside s.pCurrentAddr s.recordEnd)
      (keptWrites : s.filledWrites ⊆ s'.writes) (keptReads : s.reads ⊆ s'.reads) :
      Turn s (.stop .fault s')

theorem recordStep_turn (s : LoadState) : Turn s (recordStep s) := by
  by_cases inRam : InRam s.pCurrentAddr 12
  · by_cases ends : s.header.IsTerminator
    · have step : recordStep s =
          .stop (.ret 0) { s.logRead 12 with pCurrentAddr := s.pCurrentAddr + 12 } := by
        simp [recordStep, inRam, ends]
      exact step ▸ .terminator inRam ends
    · by_cases placeable : s.Placeable
      · rcases recordStep_placeable s inRam ends placeable with ⟨sum, step⟩ | ⟨sum, step⟩
        · exact step ▸ .next inRam ends placeable sum
        · exact step ▸ .badSum inRam ends placeable sum
      · obtain ⟨s', step, records, writes, reads, keptWrites, keptReads⟩ :=
          recordStep_unplaceable s inRam ends placeable
        exact step ▸ .recordFault s' inRam ends placeable records writes reads keptWrites keptReads
  · have step : recordStep s = .stop .fault (s.logRead 12) := by
      simp [recordStep, inRam]
    exact step ▸ .headerFault inRam

variable {s s' : LoadState}

theorem recordStep_advances (step : recordStep s = .next s') :
    InRam s.pCurrentAddr 12 ∧ s.pCurrentAddr + 12 ≤ s'.pCurrentAddr := by
  have turn := recordStep_turn s
  rw [step] at turn
  cases turn with
  | next inRam record placeable sum =>
    exact ⟨inRam, by simp only [LoadState.placed, LoadState.recordEnd]; omega⟩

/-- `while (1)`: turns until one ends the walk. Each turn consumes staged bytes and none can be
read beyond RAM, so the loop always ends. -/
def recordLoop (s : LoadState) : Exit × LoadState :=
  match _taken : recordStep s with
  | .stop exit s' => (exit, s')
  | .next s' => recordLoop s'
termination_by ramEnd - s.pCurrentAddr
decreasing_by
  obtain ⟨⟨_, inRam⟩, further⟩ := recordStep_advances _taken
  omega

theorem recordLoop_stop {exit : Exit} (step : recordStep s = .stop exit s') :
    recordLoop s = (exit, s') := by
  rw [recordLoop]
  split <;> rename_i taken <;> rw [step] at taken <;> cases taken
  rfl

theorem recordLoop_next (step : recordStep s = .next s') :
    recordLoop s = recordLoop s' := by
  rw [recordLoop]
  split <;> rename_i taken <;> rw [step] at taken <;> cases taken
  rfl

theorem walk_induction {motive : LoadState → Prop}
    (turn : ∀ s, (∀ s', recordStep s = .next s' → motive s') → motive s) (s : LoadState) :
    motive s := by
  induction left : ramEnd - s.pCurrentAddr using Nat.strongRecOn generalizing s with
  | ind left ih =>
    refine turn s fun s' step => ih (ramEnd - s'.pCurrentAddr) ?_ s' rfl
    obtain ⟨⟨_, inRam⟩, further⟩ := recordStep_advances step
    omega

theorem LoadState.writes_subset_filled (s : LoadState) : s.writes ⊆ s.filledWrites := by
  rw [LoadState.filledWrites]
  split
  · exact List.Subset.refl _
  · exact List.subset_cons_self _ _

theorem recordLoop_writes (s : LoadState) : s.writes ⊆ (recordLoop s).2.writes := by
  induction s using walk_induction with
  | turn s ih =>
    have turn := recordStep_turn s
    cases step : recordStep s with
    | next s' =>
      rw [step] at turn
      rw [recordLoop_next step]
      cases turn with
      | next =>
        refine List.Subset.trans (fun span listed => ?_) (ih _ step)
        exact List.mem_append_right _ (s.writes_subset_filled listed)
    | stop exit s' =>
      rw [step] at turn
      rw [recordLoop_stop step]
      cases turn with
      | headerFault | terminator => exact List.Subset.refl _
      | badSum => exact fun span listed => List.mem_append_right _ (s.writes_subset_filled listed)
      | recordFault _ _ _ _ _ _ _ keptWrites =>
        exact List.Subset.trans s.writes_subset_filled keptWrites

/-! ## The whole routine -/

/-- Result of parsing the staged file. -/
structure ImageLoad where
  exit : Exit
  /-- What was stored in `*filesize`, if anything. -/
  filesize : Option UInt32
  state : LoadState

/-- The walk before its first turn. -/
def LoadState.initial (m : Memory) : LoadState :=
  ⟨m, nkImageStoreStart, 0, false, [], [], []⟩

/-- The walk at the first record header. -/
def LoadState.atRecords (m : Memory) : LoadState where
  mem := m
  pCurrentAddr := nkImageStoreStart + 15
  dwReadSize := 0
  ramInit := false
  reads := [⟨nkImageStoreStart + 7, 8⟩, ⟨nkImageStoreStart, 7⟩]
  writes := []
  records := []

@[simp] theorem LoadState.atRecords_pCurrentAddr (m : Memory) :
    (LoadState.atRecords m).pCurrentAddr = nkImageStoreStart + 15 := rfl

/-- The parse of the staged file: signature, image header, then the records. -/
def loadImage (m : Memory) : ImageLoad :=
  if m.load nkImageStoreStart 7 ≠ nkSignature then
    ⟨.ret (-1), none, (LoadState.initial m).logRead 7⟩
  else
    let nkHeader := nkHdrAt m (nkImageStoreStart + 7)
    let s := LoadState.atRecords m
    if nkImageNorSize < nkHeader.dwSize.toNat then ⟨.ret (-1), none, s⟩
    else match recordLoop s with
      | (.ret 0, s) => ⟨.ret 0, some nkHeader.dwSize, s⟩
      | (exit, s) => ⟨exit, none, s⟩

/-- The medium a file is loaded from. -/
inductive Medium where
  /-- `"usb"`, device 0. -/
  | usb
  /-- `"mmc"`, device 0. -/
  | mmc
  deriving DecidableEq, Repr

/-- What `file_fat_read` did: whether it succeeded, and the bytes it put in the buffer. -/
structure FileRead where
  success : Bool
  bytes : List UInt8

/-- The block devices and the FAT layer. `σ` is their state, so every call may succeed or fail
on its own. A read never writes more than it was asked for. -/
structure FatLayer (σ : Type) where
  /-- `get_dev` finds the device. -/
  getDev : Medium → σ → Bool × σ
  /-- `fat_register_device` on a partition. -/
  fatRegisterDevice : Medium → Nat → σ → Int × σ
  /-- `fat_size`: return code and size. -/
  fatSize : List UInt8 → σ → (Int × Nat) × σ
  /-- `file_fat_read` with its buffer size. -/
  fileFatRead : List UInt8 → Nat → σ → FileRead × σ
  bounded : ∀ filename count state, (fileFatRead filename count state).1.bytes.length ≤ count

/-- The loop over partitions 1 to 3: the last return code of `fat_register_device`, which is
zero as soon as one partition registers. `giveUp` tells the codes that end the loop early. -/
def registerPartition {σ : Type} (layer : FatLayer σ) (medium : Medium) (giveUp : Int → Bool) :
    List Nat → Int → σ → Int × σ
  | [], ret, state => (ret, state)
  | part :: rest, _, state =>
    let (ret, state) := layer.fatRegisterDevice medium part state
    if ret = 0 ∨ giveUp ret then (ret, state)
    else registerPartition layer medium giveUp rest ret state

/-- `osBoot_fat_fsload_bin`: register a partition, check the size of the file, stage it and
parse it. -/
def osBootFatFsloadBin {σ : Type} (layer : FatLayer σ) (medium : Medium) (filename : List UInt8)
    (state : σ) (ram : Memory) : ImageLoad × σ :=
  let untouched (code : Int) : ImageLoad := ⟨.ret code, none, LoadState.initial ram⟩
  let (present, state) := layer.getDev medium state
  if !present then (untouched 1, state)
  else
    let (ret, state) := registerPartition layer medium (fun _ => false) [1, 2, 3] 0 state
    if ret ≠ 0 then (untouched 2, state)
    else
      let ((retval, chkSize), state) := layer.fatSize filename state
      if retval ≠ 0 then (untouched 3, state)
      else if readFileMaxSize120 < chkSize then (untouched (-1), state)
      else
        let (read, state) := layer.fileFatRead filename readFileMaxSize120 state
        let staged := ram.store nkImageStoreStart read.bytes
        if !read.success then (⟨.ret 3, none, LoadState.initial staged⟩, state)
        else (loadImage staged, state)

/-- The FAT layer delivers the file: every step before the parse succeeds, and the bytes of the
file are what is read. -/
structure Delivers {σ : Type} (layer : FatLayer σ) (medium : Medium) (filename : List UInt8)
    (state : σ) (file : List UInt8) : Prop where
  present : (layer.getDev medium state).1 = true
  registered : (registerPartition layer medium (fun _ => false) [1, 2, 3] 0
    (layer.getDev medium state).2).1 = 0
  size : (layer.fatSize filename (registerPartition layer medium (fun _ => false) [1, 2, 3] 0
    (layer.getDev medium state).2).2).1 = (0, file.length)
  read : file.length ≤ readFileMaxSize120 → (layer.fileFatRead filename readFileMaxSize120
    (layer.fatSize filename (registerPartition layer medium (fun _ => false) [1, 2, 3] 0
      (layer.getDev medium state).2).2).2).1 = ⟨true, file⟩

/-- A medium that holds one file and never fails. -/
def FatLayer.ofFile (file : List UInt8) : FatLayer Unit where
  getDev _ state := (true, state)
  fatRegisterDevice _ _ state := (0, state)
  fatSize _ state := ((0, file.length), state)
  fileFatRead _ count state := (⟨true, file.take count⟩, state)
  bounded _ count _ := List.length_take_le count file

theorem FatLayer.ofFile_delivers (file : List UInt8) (medium : Medium) (filename : List UInt8) :
    Delivers (FatLayer.ofFile file) medium filename () file where
  present := rfl
  registered := rfl
  size := rfl
  read short := by simp [FatLayer.ofFile, List.take_of_length_le short]

theorem osBootFatFsloadBin_staged {σ : Type} {layer : FatLayer σ} {medium : Medium}
    {filename : List UInt8} {state : σ} {file : List UInt8}
    (delivers : Delivers layer medium filename state file)
    (short : file.length ≤ readFileMaxSize120) (ram : Memory) :
    (osBootFatFsloadBin layer medium filename state ram).1 =
      loadImage (ram.store nkImageStoreStart file) := by
  have size := delivers.size
  have read := delivers.read short
  simp only [osBootFatFsloadBin, delivers.present, delivers.registered, size, read,
    Bool.not_true, Bool.false_eq_true, ↓reduceIte, ne_eq, not_true_eq_false, Nat.not_lt.mpr short]

end HrppBoot.Board
