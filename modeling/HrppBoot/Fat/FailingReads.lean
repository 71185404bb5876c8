import HrppBoot.Fat.Volume

/-!
# The table behind reads that fail

A device says how many blocks it read, and `get_fatent` only takes a negative number for a failure.
As long as the reads that it makes are complete, or there is no device, every call of a run returns
0 or the entry of the table. A read of fewer blocks is taken for a window of the table.
-/

namespace HrppBoot.Fat

open ByteMemory

/-- `block_read` of a device: the number of blocks read, and the bytes it leaves in the buffer. -/
abbrev BlockRead := Nat → Nat → Nat × List UInt8

/-- `disk_read`: without a device it fails. -/
def diskRead : Option BlockRead → DiskRead
  | none => fun _ _ => (-1, [])
  | some blockRead => fun block nrBlocks =>
    ((blockRead block nrBlocks).1, (blockRead block nrBlocks).2)

/-- A device reads the blocks of the volume, or fewer than it was asked for. -/
structure Delivers (blockRead : BlockRead) (sectSize : Nat) (volume : Memory) : Prop where
  at_most : ∀ block count, (blockRead block count).1 ≤ count
  room : ∀ block count, (blockRead block count).2.length ≤ count * sectSize
  complete : ∀ block count, (blockRead block count).1 = count →
    (blockRead block count).2 = volume.load (block * sectSize) (count * sectSize)

/-- A call of `get_fatent`, with what the device does meanwhile. -/
structure FatCall where
  entry : Nat
  device : Option BlockRead

/-- The calls one after the other: what each returns, and the buffer behind them. -/
def getFatents (mydata : Fsdata) : FatCache → List FatCall → List Nat × FatCache
  | cache, [] => ([], cache)
  | cache, call :: rest =>
    let (ret, cache) := getFatent (diskRead call.device) mydata cache call.entry
    let (rets, cache) := getFatents mydata cache rest
    (ret :: rets, cache)

/-- The blocks of the window of an entry: the first one, and their number. -/
def Fsdata.windowOf (mydata : Fsdata) (entry : Nat) : Nat × Nat :=
  let startblock := entry / mydata.bufEntries * fatbufBlocks
  (startblock + mydata.fatSect, if mydata.fatlength.toNat < startblock + fatbufBlocks then
    (mydata.fatlength - UInt32.ofNat startblock).toNat else fatbufBlocks)

/-- The call finds its window in the buffer, there is no device, or the device reads the whole
window. -/
def FatCall.Whole (mydata : Fsdata) (cache : FatCache) (call : FatCall) : Prop :=
  cache.fatbufnum = some (call.entry / mydata.bufEntries) ∨
    ∀ blockRead, call.device = some blockRead →
      (blockRead (mydata.windowOf call.entry).1 (mydata.windowOf call.entry).2).1 =
        (mydata.windowOf call.entry).2

/-- No call of a run takes fewer blocks than its window has for the window. -/
def NoShortRead (mydata : Fsdata) : FatCache → List FatCall → Prop
  | _, [] => True
  | cache, call :: rest => call.Whole mydata cache ∧
    NoShortRead mydata (getFatent (diskRead call.device) mydata cache call.entry).2 rest

/-- What is returned is the failure or the entry of the table. -/
def FailsOrReturns (volume : Memory) (mydata : Fsdata) (call : FatCall) (ret : Nat) : Prop :=
  ret = 0 ∨ ret = fatEntry volume mydata call.entry

/-- A device that always reads the volume. -/
def readsVolume (sectSize : Nat) (volume : Memory) : BlockRead :=
  fun block count => (count, volume.load (block * sectSize) (count * sectSize))

theorem readsVolume_delivers (sectSize : Nat) (volume : Memory) :
    Delivers (readsVolume sectSize volume) sectSize volume where
  at_most _ _ := le_rfl
  room _ _ := by simp [readsVolume, Memory.load]
  complete _ _ _ := rfl

theorem readsVolume_reads (sectSize : Nat) (volume : Memory) :
    Reads (diskRead (some (readsVolume sectSize volume))) sectSize volume :=
  fun _ _ => rfl

variable {mydata : Fsdata}

theorem getFatent_congr {disk other : DiskRead} (cache : FatCache) {entry : Nat}
    (same : disk (mydata.windowOf entry).1 (mydata.windowOf entry).2 =
      other (mydata.windowOf entry).1 (mydata.windowOf entry).2) :
    getFatent disk mydata cache entry = getFatent other mydata cache entry := by
  unfold Fsdata.windowOf at same
  dsimp only at same
  simp only [getFatent, same]

theorem getFatent_no_device (mydata : Fsdata) (cache : FatCache) (entry : Nat) :
    getFatent (diskRead none) mydata cache entry =
      (if cache.fatbufnum = some (entry / mydata.bufEntries) then
        bufEntry mydata.fatsize cache.fatbuf (entry - entry / mydata.bufEntries * mydata.bufEntries)
        else 0, cache) := by
  have untouched : cache.fatbuf.store 0 [] = cache.fatbuf := by
    funext a
    exact Memory.store_outside _ _ _ _ (by simp)
  unfold getFatent diskRead
  dsimp only
  split
  · rfl
  · rw [untouched, if_pos (by decide)]

theorem getFatent_hit {volume : Memory} {cache : FatCache} {entry : Nat}
    (even : 2 ∣ mydata.sectSize) (coherent : Coherent volume mydata cache)
    (inside : mydata.HasEntry entry) (disk : DiskRead)
    (cached : cache.fatbufnum = some (entry / mydata.bufEntries)) :
    getFatent disk mydata cache entry = (fatEntry volume mydata entry, cache) := by
  obtain ⟨after, returned, -⟩ :=
    getFatent_spec (readsVolume_reads _ volume) even coherent inside
  have kept (disk : DiskRead) : getFatent disk mydata cache entry =
      (bufEntry mydata.fatsize cache.fatbuf
        (entry - entry / mydata.bufEntries * mydata.bufEntries), cache) := by
    simp only [getFatent, if_pos cached]
  rw [kept] at returned ⊢
  rw [Prod.mk.injEq] at returned ⊢
  exact ⟨returned.1, rfl⟩

theorem getFatent_whole {volume : Memory} {cache : FatCache} {call : FatCall}
    (even : 2 ∣ mydata.sectSize) (coherent : Coherent volume mydata cache)
    (inside : mydata.HasEntry call.entry)
    (delivers : ∀ blockRead, call.device = some blockRead →
      Delivers blockRead mydata.sectSize volume) (whole : call.Whole mydata cache) :
    FailsOrReturns volume mydata call
        (getFatent (diskRead call.device) mydata cache call.entry).1 ∧
      Coherent volume mydata (getFatent (diskRead call.device) mydata cache call.entry).2 := by
  by_cases cached : cache.fatbufnum = some (call.entry / mydata.bufEntries)
  · rw [getFatent_hit even coherent inside _ cached]
    exact ⟨.inr rfl, coherent⟩
  cases found : call.device with
  | none =>
    rw [getFatent_no_device, if_neg cached]
    exact ⟨.inl rfl, coherent⟩
  | some blockRead =>
    have counted := (whole.resolve_left cached) blockRead found
    have bytes := (delivers blockRead found).complete _ _ counted
    have same : diskRead (some blockRead) (mydata.windowOf call.entry).1
          (mydata.windowOf call.entry).2 =
        diskRead (some (readsVolume mydata.sectSize volume)) (mydata.windowOf call.entry).1
          (mydata.windowOf call.entry).2 := by
      simp only [diskRead, counted, bytes, readsVolume]
    obtain ⟨after, returned, still⟩ :=
      getFatent_spec (readsVolume_reads _ volume) even coherent inside
    rw [getFatent_congr cache same, returned]
    exact ⟨.inr rfl, still⟩

/-- In every run from an empty buffer in which no read is short, every call fails or returns the
entry of the table. -/
theorem getFatents_failOrReturn {volume : Memory} {mydata : Fsdata} {fatbuf : Memory}
    {calls : List FatCall} (even : 2 ∣ mydata.sectSize)
    (inside : ∀ call ∈ calls, mydata.HasEntry call.entry)
    (delivers : ∀ call ∈ calls, ∀ blockRead, call.device = some blockRead →
      Delivers blockRead mydata.sectSize volume)
    (noShort : NoShortRead mydata ⟨fatbuf, none⟩ calls) :
    List.Forall₂ (FailsOrReturns volume mydata) calls
      (getFatents mydata ⟨fatbuf, none⟩ calls).1 := by
  have coherent : Coherent volume mydata ⟨fatbuf, none⟩ := nofun
  generalize (⟨fatbuf, none⟩ : FatCache) = cache at noShort coherent
  induction calls generalizing cache with
  | nil => exact .nil
  | cons call rest ih =>
    rw [List.forall_mem_cons] at inside delivers
    obtain ⟨here, still⟩ := getFatent_whole even coherent inside.1 delivers.1 noShort.1
    exact .cons here (ih inside.2 delivers.2 _ noShort.2 still)

/-! ## A read of no blocks -/

/-- A volume with a table of two windows. -/
def twoWindows : Fsdata where
  fatsize := .fat16
  fatlength := 12
  fatSect := 1
  rootdirSect := 13
  sectSize := 512
  clustSize := 4
  dataBegin := 43
  sector := usualSector

/-- Cluster 2 is followed by cluster 5, and cluster 1538 by cluster 7. -/
def twoLinks : Memory := fun a => if a = 516 then 5 else if a = 3588 then 7 else 0

/-- The device reads the first window, then it fails. -/
def failsSecond : List FatCall :=
  [⟨2, some (readsVolume 512 twoLinks)⟩, ⟨1538, some fun _ _ => (0, [])⟩]

/-- A first window read, and a second one where there is no device. -/
theorem getFatents_failOrReturn_twoWindows :
    List.Forall₂ (FailsOrReturns twoLinks twoWindows)
      [⟨2, some (readsVolume 512 twoLinks)⟩, ⟨1538, none⟩]
      (getFatents twoWindows ⟨Memory.blank, none⟩
        [⟨2, some (readsVolume 512 twoLinks)⟩, ⟨1538, none⟩]).1 := by
  apply getFatents_failOrReturn (by decide)
  · intro call member
    rcases List.mem_pair.mp member with rfl | rfl <;> unfold Fsdata.HasEntry <;> decide
  · intro call member blockRead found
    rcases List.mem_pair.mp member with rfl | rfl
    · cases found
      exact readsVolume_delivers _ _
    · cases found
  · refine ⟨.inr ?_, .inr nofun, trivial⟩
    intro blockRead found
    cases found
    rfl

/-- Where the read of the second window gives no blocks, the entry of the first window at that place
is returned. -/
theorem failsSecond_stale :
    (∀ call ∈ failsSecond, twoWindows.HasEntry call.entry ∧
      ∀ blockRead, call.device = some blockRead → Delivers blockRead 512 twoLinks) ∧
    ¬ List.Forall₂ (FailsOrReturns twoLinks twoWindows) failsSecond
      (getFatents twoWindows ⟨Memory.blank, none⟩ failsSecond).1 := by
  constructor
  · intro call member
    rcases List.mem_pair.mp member with rfl | rfl
    · refine ⟨by unfold Fsdata.HasEntry; decide, ?_⟩
      intro blockRead found
      cases found
      exact readsVolume_delivers _ _
    · refine ⟨by unfold Fsdata.HasEntry; decide, ?_⟩
      intro blockRead found
      cases found
      refine ⟨fun _ _ => Nat.zero_le _, fun _ _ => Nat.zero_le _, ?_⟩
      intro block count none_asked
      dsimp only at none_asked
      rw [← none_asked, Nat.zero_mul]
      rfl
  · intro promised
    have returned : (getFatents twoWindows ⟨Memory.blank, none⟩ failsSecond).1 = [5, 5] := by
      decide +kernel
    rw [returned] at promised
    obtain ⟨failed | entry, -⟩ := List.forall₂_cons.mp (List.forall₂_cons.mp promised).2
    · exact absurd failed (by decide)
    · exact absurd entry (by decide)

end HrppBoot.Fat
