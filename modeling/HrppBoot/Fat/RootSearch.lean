import HrppBoot.Fat.LongName

/-!
# Searching the root directory

On a FAT32 volume the scan of `do_fat_read_at` reads one cluster after the other and goes through
its sectors. `Resumes` says that a search has certain records ahead; each kind of record has one
lemma for what the search does with it. The search starts at the first data sector, wherever the
root directory is. If the root directory starts in cluster 2, the search finds the first file with a
name exactly if it hears the names of the files up to this one right (`Heard`).
-/

namespace HrppBoot.Fat

open ByteMemory

/-! ## Sectors and clusters -/

/-- The rest of the search: some entries of a cluster, and then the clusters behind it. -/
def resume (disk : DiskRead) (mydata : Fsdata) (name : List UInt8) (fuel clust entries : Nat)
    (scan : Scan) : Option (ScanEnd Empty) :=
  match rootEntries disk mydata name false clust 0 entries scan with
  | .found dent cache => some (.found dent cache)
  | .absent => some .absent
  | .wild => some .wild
  | .more scan =>
    let (nxtClust, cache) := getFatent disk mydata scan.cache clust
    if checkClust nxtClust .fat32 then some .absent
    else rootLoop disk mydata 0 name false fuel
      ⟨{ scan with cache := cache },
        ((mydata.dataBegin + nxtClust * mydata.clustSize) % 2 ^ 32).toNat, 0, nxtClust, false⟩

/-- A turn of the loop over the sectors, after its read. -/
def rootTurn (disk : DiskRead) (mydata : Fsdata) (name : List UInt8) (fuel : Nat) (root : RootScan) :
    Option (ScanEnd Empty) :=
  match rootEntries disk mydata name false root.rootCluster 0 mydata.direntsPerBlock root.scan with
  | .found dent cache => some (.found dent cache)
  | .absent => some .absent
  | .wild => some .wild
  | .more scan =>
    match rootAdvance disk mydata 0 { root with scan := scan } with
    | none => some .absent
    | some root => rootLoop disk mydata 0 name false fuel root

section Scan

variable (disk : DiskRead) {mydata : Fsdata} [clustered : mydata.Clustered] (name : List UInt8)
  (fuel clust : Nat)

omit clustered in
theorem resume_succ (entries : Nat) (scan : Scan) :
    resume disk mydata name fuel clust (entries + 1) scan =
      match rootEntry disk mydata name false clust 0 scan with
      | .found dent cache => some (.found dent cache)
      | .absent => some .absent
      | .wild => some .wild
      | .more scan => resume disk mydata name fuel clust entries scan := by
  rw [resume, rootEntries]
  cases rootEntry disk mydata name false clust 0 scan <;> rfl

omit clustered in
theorem resume_add (first second : Nat) (scan : Scan) :
    resume disk mydata name fuel clust (first + second) scan =
      match rootEntries disk mydata name false clust 0 first scan with
      | .found dent cache => some (.found dent cache)
      | .absent => some .absent
      | .wild => some .wild
      | .more scan => resume disk mydata name fuel clust second scan := by
  induction first generalizing scan with
  | zero => simp [rootEntries]
  | succ first ih =>
    rw [Nat.add_right_comm, resume_succ, rootEntries]
    cases step : rootEntry disk mydata name false clust 0 scan with
    | more scan => exact ih scan
    | found dent cache => rfl
    | absent => rfl
    | wild => rfl

variable (fat32 : mydata.fatsize = .fat32)
include fat32

omit clustered in
theorem rootLoop_middle {root : RootScan} (middle : root.bufferBlkCnt ≠ 0) :
    rootLoop disk mydata 0 name false (fuel + 1) root = rootTurn disk mydata name fuel root := by
  simp only [rootLoop, rootFetch, fat32, middle, ne_eq, not_false_eq_true, and_self, true_or,
    ↓reduceIte]
  rfl

omit clustered in
theorem rootTurn_cluster (sectors : Nat) (root : RootScan) (same : root.rootCluster = clust)
    (left : root.bufferBlkCnt + sectors + 1 = mydata.clustSize) :
    rootTurn disk mydata name (sectors + fuel) root =
      resume disk mydata name fuel clust ((sectors + 1) * mydata.direntsPerBlock) root.scan := by
  induction sectors generalizing root with
  | zero =>
    have last : root.bufferBlkCnt + 1 = mydata.clustSize := by omega
    rw [Nat.zero_add, Nat.zero_add, Nat.one_mul, rootTurn, resume, same]
    cases step : rootEntries disk mydata name false clust 0 mydata.direntsPerBlock root.scan with
    | found dent cache => rfl
    | absent => rfl
    | wild => rfl
    | more scan =>
      simp only [rootAdvance, fat32, last, ↓reduceIte]
      cases checkClust (getFatent disk mydata scan.cache clust).1 .fat32 <;> rfl
  | succ sectors ih =>
    have notLast : ¬root.bufferBlkCnt + 1 = mydata.clustSize := by omega
    have first : (sectors + 1 + 1) * mydata.direntsPerBlock =
        mydata.direntsPerBlock + (sectors + 1) * mydata.direntsPerBlock := by ring
    rw [first, resume_add, rootTurn, same]
    cases step : rootEntries disk mydata name false clust 0 mydata.direntsPerBlock root.scan with
    | found dent cache => rfl
    | absent => rfl
    | wild => rfl
    | more scan =>
      have next := ih { root with
        scan := scan, bufferBlkCnt := root.bufferBlkCnt + 1, firsttime := false } same
        (by simp only; omega)
      simp only [rootAdvance, fat32, notLast, ↓reduceIte]
      rw [Nat.add_right_comm, rootLoop_middle disk name _ fat32 (by simp), ← next, same]

theorem rootLoop_cluster {volume : Memory} (reads : Reads disk mydata.sectSize volume) (scan : Scan)
    (firsttime : Bool) :
    rootLoop disk mydata 0 name false (mydata.clustSize + fuel)
        ⟨scan, mydata.clusterSect clust, 0, clust, firsttime⟩ =
      resume disk mydata name fuel clust (mydata.clustSize * mydata.direntsPerBlock)
        ⟨scan.block.store 0 (volume.load (mydata.clusterSect clust * mydata.sectSize)
          mydata.bytesperclust), 0, scan.cache⟩ := by
  have positive := clustered.sectors
  obtain ⟨sectors, count⟩ : ∃ sectors, mydata.clustSize = sectors + 1 :=
    ⟨mydata.clustSize - 1, by omega⟩
  have read := reads (mydata.clusterSect clust) mydata.clustSize
  have nonnegative : ¬((mydata.clustSize : Int) < 0) := by omega
  have turn := rootTurn_cluster disk name fuel clust fat32 sectors
    ⟨⟨scan.block.store 0 (volume.load (mydata.clusterSect clust * mydata.sectSize)
      mydata.bytesperclust), 0, scan.cache⟩, mydata.clusterSect clust, 0, clust, firsttime⟩ rfl
    (by simp only; omega)
  rw [← count] at turn
  rw [show mydata.clustSize + fuel = sectors + fuel + 1 by omega, rootLoop]
  simp only [rootFetch, fat32, ne_eq, not_true_eq_false, and_false, true_or, ↓reduceIte, read,
    nonnegative]
  exact turn

end Scan

/-! ## Records ahead -/

/-- A FAT32 volume that can be read. -/
structure IsFat32 (disk : DiskRead) (volume : Memory) (mydata : Fsdata) : Prop where
  reads : Reads disk mydata.sectSize volume
  fatsize : mydata.fatsize = .fat32
  sector : mydata.sectSize ∈ [512, 1024, 2048, 4096]

/-- The table ends the chain behind its last cluster. -/
def Ended (volume : Memory) (mydata : Fsdata) (clusters : List Nat) : Prop :=
  ∀ last ∈ clusters.getLast?, 0xffffff8 ≤ fatEntry volume mydata last

theorem ended_tail {volume : Memory} {mydata : Fsdata} {clust next : Nat} {rest : List Nat}
    (ended : Ended volume mydata (clust :: next :: rest)) : Ended volume mydata (next :: rest) := by
  intro last isLast
  apply ended
  rwa [List.getLast?_cons_cons]

/-- A search with these records ahead, of which some are in the buffer, has this result. -/
structure Search (disk : DiskRead) (volume : Memory) (mydata : Fsdata) (name : List UInt8)
    (fuel clust : Nat) (rest : List Nat) (scan : Scan) (ahead records : List Record)
    (result : Option (ScanEnd Empty)) : Prop
    extends Position volume mydata clust rest scan ahead where
  ended : Ended volume mydata (clust :: rest)
  enough : rest.length * mydata.clustSize ≤ fuel
  split : records = ahead ++ directoryRecords volume mydata rest
  outcome : result = resume disk mydata name fuel clust ahead.length scan

/-- A search with these records ahead has this result. -/
def Resumes (disk : DiskRead) (volume : Memory) (mydata : Fsdata) (name : List UInt8)
    (records : List Record) (result : Option (ScanEnd Empty)) : Prop :=
  ∃ fuel clust rest scan ahead,
    Search disk volume mydata name fuel clust rest scan ahead records result

section Steps

variable {disk : DiskRead} {volume : Memory} {mydata : Fsdata} [clustered : mydata.Clustered]
  (fat32 : IsFat32 disk volume mydata)
include fat32

omit clustered in
theorem IsFat32.even : 2 ∣ mydata.sectSize := by
  have sector := fat32.sector
  simp only [List.mem_cons, List.not_mem_nil, or_false] at sector
  omega

theorem IsFat32.direntsPerClust :
    direntSize * (mydata.bytesperclust / direntSize) = mydata.bytesperclust ∧
      mydata.clustSize * mydata.direntsPerBlock = mydata.bytesperclust / direntSize ∧
      vfatMaxseq < mydata.bytesperclust / direntSize := by
  have sector := fat32.sector
  have positive := clustered.sectors
  obtain ⟨per, multiple⟩ : ∃ per, mydata.sectSize = 32 * per ∧ 16 ≤ per := by
    simp only [List.mem_cons, List.not_mem_nil, or_false] at sector
    exact ⟨mydata.sectSize / 32, by omega, by omega⟩
  have whole : mydata.bytesperclust = 32 * (mydata.clustSize * per) := by
    unfold Fsdata.bytesperclust
    rw [multiple.1]
    ring
  have quotient : mydata.bytesperclust / 32 = mydata.clustSize * per := by omega
  have many : 1 * 16 ≤ mydata.clustSize * per := Nat.mul_le_mul positive multiple.2
  unfold Fsdata.direntsPerBlock direntSize vfatMaxseq
  rw [quotient, multiple.1, Nat.mul_div_cancel_left _ (by decide)]
  exact ⟨whole.symm, rfl, by omega⟩

variable {name : List UInt8} {records : List Record} {result : Option (ScanEnd Empty)}

omit clustered fat32 in
theorem clusterSect_eq {clust : Nat} (positive : 0 < clust) :
    ((mydata.dataBegin + clust * mydata.clustSize) % 2 ^ 32).toNat = mydata.clusterSect clust := by
  rw [Fsdata.clusterSect, if_pos positive]

variable {rest : List Nat} {record : Record}

theorem resumes_cluster (name : List UInt8) {clust : Nat} (scan : Scan) {fuel : Nat}
    (chain : ValidChain volume mydata (clust :: rest)) (ended : Ended volume mydata (clust :: rest))
    (coherent : Coherent volume mydata scan.cache) (enough : rest.length * mydata.clustSize ≤ fuel)
    (firsttime : Bool) :
    Search disk volume mydata name fuel clust rest
      ⟨scan.block.store 0 (volume.load (mydata.clusterSect clust * mydata.sectSize)
        mydata.bytesperclust), 0, scan.cache⟩
      (recordsFrom volume (mydata.clusterSect clust * mydata.sectSize)
        (mydata.bytesperclust / direntSize))
      (directoryRecords volume mydata (clust :: rest))
      (rootLoop disk mydata 0 name false (mydata.clustSize + fuel)
        ⟨scan, mydata.clusterSect clust, 0, clust, firsttime⟩) where
  chain := chain
  shows := shows_cluster volume mydata clust scan.block
  limit := by rw [length_recordsFrom, Nat.zero_add, fat32.direntsPerClust.1]
  coherent := coherent
  ended := ended
  enough := enough
  split := rfl
  outcome := by
    rw [length_recordsFrom, rootLoop_cluster disk name fuel clust fat32.fatsize fat32.reads,
      fat32.direntsPerClust.2.1]

theorem Resumes.nil (search : Resumes disk volume mydata name [] result) :
    result = some .absent := by
  obtain ⟨fuel, clust, rest, scan, ahead, search⟩ := search
  have empty := search.split.symm
  rw [List.append_eq_nil_iff] at empty
  have noRest : rest = [] := by
    cases rest with
    | nil => rfl
    | cons next rest =>
      have length := congrArg List.length (List.append_eq_nil_iff.mp empty.2).1
      have many := fat32.direntsPerClust.2.2
      rw [length_recordsFrom, List.length_nil] at length
      omega
  subst noRest
  have final := search.ended clust (by simp)
  obtain ⟨cache, entry, -⟩ := getFatent_spec fat32.reads fat32.even search.coherent
    (search.chain.hasEntry clust (by simp))
  have invalid : checkClust (fatEntry volume mydata clust) .fat32 = true := by
    simp only [checkClust, decide_eq_true_eq]
    omega
  rw [search.outcome, empty.1]
  simp only [resume, List.length_nil, rootEntries, entry, invalid, ↓reduceIte]

/-- The next record can be taken to be in the buffer. -/
theorem Resumes.buffered (search : Resumes disk volume mydata name (record :: records) result) :
    ∃ fuel clust rest scan ahead,
      Search disk volume mydata name fuel clust rest scan (record :: ahead) (record :: records)
        result := by
  obtain ⟨fuel, clust, rest, scan, ahead, search⟩ := search
  have split := search.split
  cases ahead with
  | cons other ahead =>
    rw [List.cons_append, List.cons.injEq] at split
    exact ⟨fuel, clust, rest, scan, ahead, split.1 ▸ search⟩
  | nil =>
    cases rest with
    | nil => simp [directoryRecords] at split
    | cons next rest =>
      obtain ⟨cache, entry, coherent, valid⟩ :=
        getFatent_next fat32.reads fat32.even search.coherent search.chain
      rw [fat32.fatsize] at valid
      have bounds := clust_bounds valid
      have fueled := search.enough
      rw [List.length_cons, Nat.add_mul, Nat.one_mul] at fueled
      obtain ⟨left, enough⟩ : ∃ left, fuel = mydata.clustSize + left :=
        ⟨fuel - mydata.clustSize, by omega⟩
      have behind : rest.length * mydata.clustSize ≤ left := by omega
      have start := resumes_cluster fat32 name { scan with cache := cache } search.chain.tail
        (ended_tail search.ended) coherent behind false
      have same : result = rootLoop disk mydata 0 name false (mydata.clustSize + left)
          ⟨{ scan with cache := cache }, mydata.clusterSect next, 0, next, false⟩ := by
        rw [search.outcome]
        simp only [resume, List.length_nil, rootEntries, entry, valid, Bool.false_eq_true,
          ↓reduceIte, clusterSect_eq (show 0 < next by omega), enough]
      rw [List.nil_append] at split
      rw [← same, ← split] at start
      obtain ⟨count, many⟩ : ∃ count, mydata.bytesperclust / direntSize = count + 1 := by
        have many := fat32.direntsPerClust.2.2
        exact ⟨mydata.bytesperclust / direntSize - 1, by omega⟩
      rw [many, recordsFrom] at start
      have first := start.split
      rw [List.cons_append, List.cons.injEq] at first
      rw [← first.1] at start
      exact ⟨left, next, rest, _, _, start⟩

omit clustered fat32 in
theorem Search.advance {fuel clust : Nat} {scan : Scan}
    {ahead : List Record}
    (search : Search disk volume mydata name fuel clust rest scan (record :: ahead)
      (record :: records) result) {block : Memory} {cache : FatCache}
    (step : rootEntry disk mydata name false clust 0 scan =
      .more ⟨block, scan.dentptr + direntSize, cache⟩)
    (shows : Shows block (scan.dentptr + direntSize) ahead)
    (coherent : Coherent volume mydata cache) :
    Resumes disk volume mydata name records result := by
  have limit := search.limit
  have split := search.split
  rw [List.length_cons, Nat.mul_succ] at limit
  rw [List.cons_append, List.cons.injEq] at split
  refine ⟨fuel, clust, rest, ⟨block, scan.dentptr + direntSize, cache⟩, ahead,
    ⟨search.chain, shows, by simp only; omega, coherent⟩, search.ended, search.enough, split.2, ?_⟩
  rw [search.outcome, List.length_cons, resume_succ, step]

/-- A record that the search passes without a look at its name. -/
def Skipped (record : Record) : Prop :=
  record.byte 0 = deletedFlag ∨ (record.attr &&& attrVolume ≠ 0 ∧
    ¬(record.attr &&& attrVfat = attrVfat ∧ record.byte 0 &&& lastLongEntryMask ≠ 0))

theorem Resumes.skip (skipped : List Record) (passed : ∀ record ∈ skipped, Skipped record)
    (search : Resumes disk volume mydata name (skipped ++ records) result) :
    Resumes disk volume mydata name records result := by
  induction skipped with
  | nil => exact search
  | cons record skipped ih =>
    rw [List.cons_append] at search
    rw [List.forall_mem_cons] at passed
    apply ih passed.2
    obtain ⟨fuel, clust, rest, scan, ahead, search⟩ := search.buffered fat32
    refine search.advance ?_ search.shows.2 search.coherent
    simp only [rootEntry, search.shows.1]
    obtain deleted | ⟨volumeId, notSlot⟩ := passed.1
    · rw [if_pos deleted]
    · rw [if_pos volumeId, if_neg notSlot, ite_self]

theorem Resumes.stop (unused : record.byte 0 = 0) (attr : record.attr &&& attrVolume = 0)
    (search : Resumes disk volume mydata name (record :: records) result) :
    result = some .absent := by
  obtain ⟨fuel, clust, rest, scan, ahead, search⟩ := search.buffered fat32
  have notDeleted : ¬(0 : UInt8) = deletedFlag := by decide
  have step : rootEntry disk mydata name false clust 0 scan = .absent := by
    simp only [rootEntry, search.shows.1, unused, notDeleted, attr, ne_eq, not_true_eq_false,
      ↓reduceIte]
  rw [search.outcome, List.length_cons, resume_succ, step]

def Found (volume : Memory) (mydata : Fsdata) (dent : Record) (result : Option (ScanEnd Empty)) :
    Prop :=
  ∃ cache, Coherent volume mydata cache ∧ result = some (.found dent cache)

omit clustered fat32 in
theorem Search.compare {fuel clust : Nat} {scan : Scan} {dent : Record}
    {ahead : List Record} {lName : List UInt8} {block : Memory} {cache : FatCache}
    (search : Search disk volume mydata name fuel clust rest scan (record :: ahead)
      (record :: records) result)
    (step : rootEntry disk mydata name false clust 0 scan =
      compareEntry name false ⟨block, scan.dentptr, cache⟩ lName)
    (entry : block.load scan.dentptr direntSize = dent)
    (shows : Shows block (scan.dentptr + direntSize) ahead)
    (coherent : Coherent volume mydata cache) :
    if name = getName dent ∨ name = lName then Found volume mydata dent result
    else Resumes disk volume mydata name records result := by
  simp only [compareEntry, entry, Bool.false_eq_true, false_and, ↓reduceIte] at step
  split
  · rename_i same
    rw [if_neg (by tauto)] at step
    refine ⟨cache, coherent, ?_⟩
    rw [search.outcome, List.length_cons, resume_succ, step]
  · rename_i different
    rw [if_pos (by tauto)] at step
    exact search.advance step shows coherent

variable {file : File} (wellFormed : file.WellFormed)

omit fat32 in
include wellFormed in
theorem File.WellFormed.nonzero : file.dent.byte 0 ≠ 0 := by
  have length := wellFormed.dentLength
  unfold direntSize at length
  apply wellFormed.printable
  cases shape : file.dent with
  | nil => simp [shape] at length
  | cons c rest => simp [Record.byte]

include wellFormed in
theorem Resumes.entry (search : Resumes disk volume mydata name (file.dent :: records) result) :
    if name = getName file.dent ∨ name = [] then Found volume mydata file.dent result
    else Resumes disk volume mydata name records result := by
  obtain ⟨fuel, clust, rest, scan, ahead, search⟩ := search.buffered fat32
  apply search.compare _ search.shows.1 search.shows.2 search.coherent
  simp only [rootEntry, search.shows.1, wellFormed.used, wellFormed.dentAttr, wellFormed.nonzero,
    ne_eq, not_true_eq_false, ↓reduceIte]

include wellFormed in
/-- What the search does at the first slot of a file whose name is not too long. -/
theorem Resumes.slot {slot : Record} {slots : List Record} (shape : file.slots = slot :: slots)
    (few : slots.length < vfatMaxseq)
    (search : Resumes disk volume mydata name (slot :: (slots ++ file.dent :: records)) result) :
    if name = getName file.dent ∨
        name = finishName (readSlots (mydata.nearRecords
          (file.slots ++ file.dent :: records).length) file.slots) then
      Found volume mydata file.dent result
    else Resumes disk volume mydata name (slots ++ file.dent :: records) result := by
  obtain ⟨fuel, clust, rest, scan, ahead, search⟩ := search.buffered fat32
  have order := wellFormed.slotOrder shape few
  have near := search.toPosition.near (List.cons_ne_nil _ _) search.split
  rw [shape, List.cons_append, near]
  have read : ∃ cache, Coherent volume mydata cache ∧
      getVfatname disk mydata scan.cache clust scan.block 0 scan.dentptr =
        some ⟨finishName (readSlots (slot :: ahead).length (slot :: slots)),
          scan.block.store scan.dentptr file.dent, cache⟩ := by
    have split := search.split
    rw [← List.cons_append, eq_comm] at split
    have across {beyond : List Record} (inCluster : slot :: slots = slot :: ahead ++ beyond)
        (rest : directoryRecords volume mydata rest = beyond ++ file.dent :: records) :=
      getVfatname_across search.toPosition order fat32.reads fat32.even fat32.direntsPerClust.2.2
        (List.cons_ne_nil _ _) inCluster rest
    obtain ⟨beyond, slots, rest⟩ | ⟨extra, ahead, rest⟩ := List.append_eq_append_iff.mp split
    · exact across slots rest
    · cases extra with
      | nil => exact @across [] (by rw [ahead, List.append_nil, List.append_nil]) rest.symm
      | cons other behind =>
        rw [List.cons_append, List.cons.injEq] at rest
        rw [← rest.1] at ahead
        exact ⟨scan.cache, search.coherent, getVfatname_inside search.toPosition order ahead⟩
  obtain ⟨cache, coherent, vfat⟩ := read
  have marked := wellFormed.slotId
  have count := wellFormed.slotCount
  have attr := wellFormed.slotAttr slot (by simp [shape])
  rw [shape] at marked count
  rw [List.length_cons] at count
  have bits := slotId_bits slots.length (by omega)
  have entry := (Memory.store_holds scan.block scan.dentptr file.dent).load
  rw [wellFormed.dentLength] at entry
  refine search.compare ?_ entry
    (search.shows.2.store (by rw [wellFormed.dentLength])) coherent
  have isVolume : attrVfat &&& attrVolume ≠ 0 := by decide
  have isVfat : attrVfat &&& attrVfat = attrVfat := by decide
  simp only [rootEntry, search.shows.1, marked.1, attr, if_neg bits.2.2.2.2.2.2.2, if_pos isVolume,
    isVfat, true_and, if_pos bits.2.2.2.1, vfat]

include wellFormed in
/-- `get_vfatname` refuses a name that is too long, and its first slot is compared like an entry. -/
theorem Resumes.slotLong {slot : Record} {slots : List Record} (shape : file.slots = slot :: slots)
    (many : ¬slots.length < vfatMaxseq)
    (search : Resumes disk volume mydata name (slot :: (slots ++ file.dent :: records)) result) :
    if name = getName slot ∨ name = [] then Found volume mydata slot result
    else Resumes disk volume mydata name (slots ++ file.dent :: records) result := by
  obtain ⟨fuel, clust, rest, scan, ahead, search⟩ := search.buffered fat32
  have marked := wellFormed.slotId
  have count := wellFormed.slotCount
  have attr := wellFormed.slotAttr slot (by simp [shape])
  rw [shape] at marked count
  rw [List.length_cons] at count
  have bits := slotId_bits slots.length (by omega)
  have long : vfatMaxseq < slot.seq.toNat := by
    rw [Record.seq, marked.1, bits.2.1]
    omega
  have vfat : getVfatname disk mydata scan.cache clust scan.block 0 scan.dentptr =
      some ⟨[], scan.block, scan.cache⟩ := by
    simp only [getVfatname, search.shows.1, if_pos long]
  refine search.compare ?_ search.shows.1 search.shows.2 search.coherent
  have isVolume : attrVfat &&& attrVolume ≠ 0 := by decide
  have isVfat : attrVfat &&& attrVfat = attrVfat := by decide
  simp only [rootEntry, search.shows.1, marked.1, attr, if_neg bits.2.2.2.2.2.2.2, if_pos isVolume,
    isVfat, true_and, if_pos bits.2.2.2.1, vfat]

omit fat32 in
include wellFormed in
theorem File.WellFormed.find_unused (records : List Record) :
    (file.slots ++ file.dent :: records).find? (fun record => record.byte 0 = 0) =
      records.find? fun record => record.byte 0 = 0 := by
  have marked := wellFormed.slotId
  have count := wellFormed.slotCount
  have noSlot : file.slots.find? (fun record => record.byte 0 = 0) = none := by
    cases shape : file.slots with
    | nil => rfl
    | cons slot slots =>
      rw [shape] at marked count
      rw [List.length_cons] at count
      have bits := slotId_bits slots.length (by omega)
      rw [List.find?_eq_none, List.forall_mem_cons, marked.1]
      refine ⟨by simpa using bits.2.2.2.2.2.1, ?_⟩
      intro other member
      simpa using (marked.2.unmarked (by omega) other member).2
  rw [List.find?_append, noSlot, Option.none_or, List.find?_cons]
  simp [wellFormed.nonzero]

omit fat32 in
include wellFormed in
theorem File.WellFormed.skipped_tail {slot : Record} {slots : List Record}
    (shape : file.slots = slot :: slots) : ∀ other ∈ slots, Skipped other := by
  intro other member
  have marked := wellFormed.slotId
  have count := wellFormed.slotCount
  have attr := wellFormed.slotAttr other (by simp [shape, member])
  rw [shape] at marked count
  rw [List.length_cons] at count
  have plain := (marked.2.unmarked (by omega) other member).1
  right
  rw [attr, plain]
  decide

include wellFormed in
/-- The search takes the record of the file that answers to the name, or goes on behind the file. -/
theorem Resumes.pastFile (nonempty : name ≠ [])
    (search : Resumes disk volume mydata name (file.slots ++ file.dent :: records) result) :
    match file.answer (mydata.nearRecords (file.slots ++ file.dent :: records).length) name with
    | some dent => Found volume mydata dent result
    | none => Resumes disk volume mydata name records result := by
  unfold File.answer
  cases shape : file.slots with
  | nil =>
    rw [shape, List.nil_append] at search
    have compared := search.entry fat32 wellFormed
    simp only [nonempty, or_false] at compared
    dsimp only
    split_ifs at compared ⊢ <;> exact compared
  | cons slot slots =>
    rw [shape, List.cons_append] at search
    have entry (behind : Resumes disk volume mydata name (slots ++ file.dent :: records) result) :=
      (behind.skip fat32 slots (wellFormed.skipped_tail shape)).entry fat32 wellFormed
    simp only [nonempty, or_false] at entry
    dsimp only
    by_cases few : slots.length < vfatMaxseq
    · have compared := search.slot fat32 wellFormed shape few
      rw [shape] at compared
      rw [if_pos few]
      split at compared
      · rename_i same
        rw [if_pos same]
        exact compared
      · rename_i different
        have behind := entry compared
        rw [if_neg (fun same => different (.inl same))] at behind
        rw [if_neg different]
        exact behind
    · have compared := search.slotLong fat32 wellFormed shape few
      simp only [nonempty, or_false] at compared
      rw [if_neg few]
      split at compared
      · rename_i same
        rw [if_pos same]
        exact compared
      · rename_i different
        have behind := entry compared
        rw [if_neg different]
        split_ifs at behind ⊢ <;> exact behind

end Steps

/-! ## Names that are heard -/

/-- The search hears the files of a directory right, up to the first with the name: the one with the
name answers to it with its entry, the files before it do not answer. If no file has the name, the
record behind the last file is no volume label. -/
inductive Heard (mydata : Fsdata) (filename : List UInt8) : List Record → List File → Prop where
  | nil : Heard mydata filename [] []
  | stop {dent : Record} {rest : List Record} (unused : dent.byte 0 = 0)
      (attr : dent.attr &&& attrVolume = 0) : Heard mydata filename (dent :: rest) []
  | skip {dent : Record} {rest : List Record} {files : List File} (skipped : Skipped dent)
      (more : Heard mydata filename rest files) : Heard mydata filename (dent :: rest) files
  | named {file : File} {rest : List Record} {files : List File} (wellFormed : file.WellFormed)
      (named : file.Named filename)
      (answers : file.answer (mydata.nearRecords (file.slots ++ file.dent :: rest).length)
        (downcase filename) = some file.dent) :
      Heard mydata filename (file.slots ++ file.dent :: rest) (file :: files)
  | other {file : File} {rest : List Record} {files : List File} (wellFormed : file.WellFormed)
      (other : ¬file.Named filename)
      (silent : file.answer (mydata.nearRecords (file.slots ++ file.dent :: rest).length)
        (downcase filename) = none) (more : Heard mydata filename rest files) :
      Heard mydata filename (file.slots ++ file.dent :: rest) (file :: files)

/-- The search has the first file with the name as its result. -/
def FirstNamed (volume : Memory) (mydata : Fsdata) (filename : List UInt8) (files : List File)
    (result : Option (ScanEnd Empty)) : Prop :=
  match files.find? fun file => file.Named filename with
  | none => result = some .absent
  | some file => Found volume mydata file.dent result

section Heard

variable {disk : DiskRead} {volume : Memory} {mydata : Fsdata} [clustered : mydata.Clustered]
  {filename : List UInt8} {records : List Record} {files : List File}
  {result : Option (ScanEnd Empty)}

omit clustered in
/-- Files with names that the search can read are heard right. -/
theorem heard_of_supported (directory : Directory records files)
    (supported : ∀ file ∈ files, file.Supported)
    (unused : ∀ record ∈ records.find? (fun record => record.byte 0 = 0),
      record.attr &&& attrVolume = 0) : Heard mydata filename records files := by
  induction directory with
  | nil => exact .nil
  | stop zero => exact .stop zero (unused _ (by simp [zero]))
  | @deleted dent rest files flag _ ih =>
    have nonzero : dent.byte 0 ≠ 0 := by
      rw [flag]
      decide
    exact .skip (.inl flag) (ih supported (by simpa [nonzero] using unused))
  | @label dent rest files used attr notSlot _ ih =>
    exact .skip (.inr ⟨attr, fun slot => notSlot slot.1⟩)
      (ih supported (by simpa [used] using unused))
  | @file file rest files wellFormed _ ih =>
    rw [List.forall_mem_cons] at supported
    rw [wellFormed.find_unused] at unused
    have answer := supported.1.answer wellFormed
    by_cases named : file.Named filename
    · exact .named wellFormed named (by rw [answer, if_pos named])
    · exact .other wellFormed named (by rw [answer, if_neg named]) (ih supported.2 unused)

variable (fat32 : IsFat32 disk volume mydata) (nonempty : downcase filename ≠ [])
  (search : Resumes disk volume mydata (downcase filename) records result)
include fat32 nonempty search

/-- A search that hears right has the first file with the name as its result. -/
theorem Heard.finds (heard : Heard mydata filename records files) :
    FirstNamed volume mydata filename files result := by
  induction heard with
  | nil => exact search.nil fat32
  | stop unused attr => exact search.stop fat32 unused attr
  | skip skipped _ ih => exact ih (search.skip fat32 [_] (by simpa using skipped))
  | named wellFormed named answers =>
    have passed := search.pastFile fat32 wellFormed nonempty
    rw [answers] at passed
    simp only [FirstNamed, List.find?_cons, named, decide_true]
    exact passed
  | other wellFormed other silent _ ih =>
    have passed := search.pastFile fat32 wellFormed nonempty
    rw [silent] at passed
    simp only [FirstNamed, List.find?_cons, other, decide_false]
    exact ih passed

omit clustered fat32 nonempty search in
theorem Found.same {first second : Record} (one : Found volume mydata first result)
    (other : Found volume mydata second result) : first = second := by
  obtain ⟨cache, -, rfl⟩ := one
  obtain ⟨after, -, same⟩ := other
  cases same
  rfl

omit clustered fat32 nonempty search in
/-- What answers is the entry of the file, or one of its slots. -/
theorem File.WellFormed.answer_cases {file : File} (wellFormed : file.WellFormed) {near : Nat}
    {name : List UInt8} {dent : Record} (answer : file.answer near name = some dent) :
    dent = file.dent ∨ dent.attr = attrVfat := by
  unfold File.answer at answer
  cases shape : file.slots with
  | nil =>
    rw [shape] at answer
    simp only [Option.ite_none_right_eq_some, Option.some.injEq] at answer
    exact .inl answer.2.symm
  | cons slot rest =>
    rw [shape] at answer
    have attr := wellFormed.slotAttr slot (by simp [shape])
    dsimp only at answer
    split_ifs at answer
    · exact .inl (Option.some.inj answer).symm
    · exact .inr (Option.some.inj answer ▸ attr)
    · exact .inl (Option.some.inj answer).symm

omit clustered fat32 nonempty search in
theorem File.WellFormed.not_slot {file : File} (wellFormed : file.WellFormed) :
    file.dent.attr ≠ attrVfat := by
  intro slot
  have attr := wellFormed.dentAttr
  rw [slot] at attr
  exact absurd attr (by decide)

/-- A search finds nothing but entries and slots of its files. -/
theorem Resumes.range (directory : Directory records files)
    (unused : ∀ record ∈ records.find? (fun record => record.byte 0 = 0),
      record.attr &&& attrVolume = 0) {dent : Record} (found : Found volume mydata dent result) :
    (∃ file ∈ files, dent = file.dent) ∨ dent.attr = attrVfat := by
  have never {result : Option (ScanEnd Empty)} (found : Found volume mydata dent result)
      (absent : result = some .absent) : False := by
    obtain ⟨_, -, same⟩ := found
    cases same.symm.trans absent
  induction directory with
  | nil => exact (never found (search.nil fat32)).elim
  | stop zero => exact (never found (search.stop fat32 zero (unused _ (by simp [zero])))).elim
  | @deleted dent rest files flag _ ih =>
    have nonzero : dent.byte 0 ≠ 0 := by
      rw [flag]
      decide
    exact ih (search.skip fat32 [dent] (by simp [Skipped, flag])) (by simpa [nonzero] using unused)
  | @label dent rest files used attr notSlot _ ih =>
    exact ih (search.skip fat32 [dent] (by simp [Skipped, attr, notSlot]))
      (by simpa [used] using unused)
  | @file file rest files wellFormed _ ih =>
    rw [wellFormed.find_unused] at unused
    have passed := search.pastFile fat32 wellFormed nonempty
    split at passed
    · rename_i other answer
      obtain rfl := found.same passed
      exact (wellFormed.answer_cases answer).imp_left fun same => ⟨file, by simp, same⟩
    · obtain ⟨later, member, same⟩ | slot := ih passed unused
      · exact .inl ⟨later, List.mem_cons_of_mem _ member, same⟩
      · exact .inr slot

/-- A search with the first file with the name as its result has heard right, where no two files
have the same entry. -/
theorem Resumes.heard (directory : Directory records files)
    (unused : ∀ record ∈ records.find? (fun record => record.byte 0 = 0),
      record.attr &&& attrVolume = 0)
    (distinct : files.Pairwise fun file other => file.dent ≠ other.dent)
    (first : FirstNamed volume mydata filename files result) :
    Heard mydata filename records files := by
  induction directory with
  | nil => exact .nil
  | stop zero => exact .stop zero (unused _ (by simp [zero]))
  | @deleted dent rest files flag _ ih =>
    have nonzero : dent.byte 0 ≠ 0 := by
      rw [flag]
      decide
    exact .skip (.inl flag) (ih (search.skip fat32 [dent] (by simp [Skipped, flag]))
      (by simpa [nonzero] using unused) distinct first)
  | @label dent rest files used attr notSlot _ ih =>
    exact .skip (.inr ⟨attr, fun slot => notSlot slot.1⟩)
      (ih (search.skip fat32 [dent] (by simp [Skipped, attr, notSlot]))
        (by simpa [used] using unused) distinct first)
  | @file file rest files wellFormed directory ih =>
    rw [wellFormed.find_unused] at unused
    rw [List.pairwise_cons] at distinct
    have passed := search.pastFile fat32 wellFormed nonempty
    by_cases named : file.Named filename
    · simp only [FirstNamed, List.find?_cons, named, decide_true] at first
      cases answer : file.answer (mydata.nearRecords (file.slots ++ file.dent :: rest).length)
          (downcase filename) with
      | some dent =>
        rw [answer] at passed
        exact .named wellFormed named (answer.trans (congrArg some (passed.same first)))
      | none =>
        rw [answer] at passed
        obtain ⟨later, member, same⟩ | slot := passed.range fat32 nonempty directory unused first
        · exact absurd same (distinct.1 later member)
        · exact absurd slot wellFormed.not_slot
    · simp only [FirstNamed, List.find?_cons, named, decide_false] at first
      cases answer : file.answer (mydata.nearRecords (file.slots ++ file.dent :: rest).length)
          (downcase filename) with
      | none =>
        rw [answer] at passed
        exact .other wellFormed named answer (ih passed unused distinct.2 first)
      | some dent =>
        rw [answer] at passed
        split at first
        · obtain ⟨_, -, found⟩ := passed
          cases first.symm.trans found
        · rename_i later isFirst
          have member := List.mem_of_find?_eq_some isFirst
          have same := passed.same first
          obtain own | slot := wellFormed.answer_cases answer
          · exact absurd (own.symm.trans same) (distinct.1 later member)
          · exact absurd (same ▸ slot) (directory.wellFormed later member).not_slot

end Heard

/-! ## The search -/

/-- A FAT32 volume, the clusters of its root directory and its files. -/
structure RootDirectory (disk : DiskRead) (volume : Memory) (mounted : Mounted)
    (clusters : List Nat) (files : List File) : Prop where
  fat32 : IsFat32 disk volume mounted.mydata
  clustSize : mounted.mydata.bytesperclust ≤ maxClustsize
  chain : ValidChain volume mounted.mydata clusters
  head : clusters.head? = some mounted.rootCluster
  ended : Ended volume mounted.mydata clusters
  directory : Directory (directoryRecords volume mounted.mydata clusters) files

/-- The search of `do_fat_read_at` takes the entry of the first file with the name, and
`do_fat_read_at` reads this file; it fails if there is none. -/
structure FindsFirst (disk : DiskRead) (blksz : Nat) (volume : Memory) (mounted : Mounted)
    [mounted.mydata.Clustered] (files : List File) (filename : List UInt8) (fuel : Nat) : Prop where
  entry : FirstNamed volume mounted.mydata (filename.dropWhile isdirdelim) files
    (searchPath disk mounted (downcase (filename.dropWhile isdirdelim)) fuel)
  outcome : ∀ pos buffer maxsize dogetsize memory,
    match files.find? fun file => file.Named (filename.dropWhile isdirdelim) with
    | none => doFatReadAt disk blksz filename pos buffer maxsize dogetsize memory fuel = some .failed
    | some file => ∃ cache, Coherent volume mounted.mydata cache ∧
        doFatReadAt disk blksz filename pos buffer maxsize dogetsize memory fuel =
          some (if dogetsize then .size file.dent.dirEntry.size.toNat
            else .contents (getContents disk mounted.mydata cache file.dent.dirEntry pos buffer
              maxsize memory))

variable {mounted : Mounted}

theorem mount_fat32 {disk : DiskRead} {blksz : Nat} (mount : mount disk blksz = some mounted)
    (fat32 : mounted.mydata.fatsize = .fat32) :
    mounted.rootdirSize = 0 ∧ mounted.mydata.clusterSect 2 = mounted.mydata.rootdirSect := by
  unfold Fat.mount at mount
  split at mount
  · cases mount
  · simp only at mount
    split at mount
    · cases mount
    · split at mount
      · cases mount
        simp only at fat32
        have positive : 0 < 2 := by decide
        simp only [fat32, ↓reduceIte, Fsdata.clusterSect, positive, Nat.cast_ofNat, true_and]
        omega
      · cases mount

theorem isdirdelim_tolower (c : UInt8) : isdirdelim (tolower c) = isdirdelim c := by
  unfold tolower
  split
  · rename_i upper
    have shifted : (c + 0x20).toNat = (c.toNat + 0x20) % 256 := UInt8.toNat_add ..
    simp only [isupper, Bool.decide_or, Bool.decide_and, Bool.or_eq_true, Bool.and_eq_true,
      decide_eq_true_eq, UInt8.le_iff_toNat_le, UInt8.reduceToNat] at upper
    simp only [isdirdelim, ← UInt8.toNat_inj, shifted, UInt8.reduceToNat, decide_eq_decide]
    omega
  · rfl

theorem searchPath_name {disk : DiskRead} {path : List UInt8} (fuel : Nat)
    (plain : ∀ c ∈ path, isdirdelim c = false) :
    searchPath disk mounted path fuel =
      rootLoop disk mounted.mydata mounted.rootdirSize path false fuel mounted.rootScan := by
  have noDelim : path.any isdirdelim = false := by
    rw [List.any_eq_false]
    simpa using plain
  have whole : path.takeWhile (! isdirdelim ·) = path := by
    rw [List.takeWhile_eq_self_iff]
    simpa using plain
  simp only [searchPath, noDelim, whole]
  split
  · rename_i found
    simp [found]
  · rfl

theorem RootDirectory.resumes [mounted.mydata.Clustered] {disk : DiskRead} {blksz : Nat}
    {volume : Memory} {clusters : List Nat} {files : List File} {path : List UInt8} {fuel : Nat}
    (mount : mount disk blksz = some mounted)
    (root : RootDirectory disk volume mounted clusters files) (cluster2 : mounted.rootCluster = 2)
    (plain : ∀ c ∈ path, isdirdelim c = false)
    (enough : clusters.length * mounted.mydata.clustSize ≤ fuel) :
    Resumes disk volume mounted.mydata path (directoryRecords volume mounted.mydata clusters)
      (searchPath disk mounted path fuel) := by
  obtain ⟨noSize, start⟩ := mount_fat32 mount root.fat32.fatsize
  have head := root.head
  cases clusters with
  | nil => simp at head
  | cons clust rest =>
    rw [List.head?_cons, Option.some.injEq, cluster2] at head
    subst head
    rw [List.length_cons, Nat.add_mul, Nat.one_mul] at enough
    obtain ⟨left, fueled⟩ : ∃ left, fuel = mounted.mydata.clustSize + left :=
      ⟨fuel - mounted.mydata.clustSize, by omega⟩
    have coherent : Coherent volume mounted.mydata ⟨Memory.blank, none⟩ := by
      intro bufnum cached
      cases cached
    have behind : rest.length * mounted.mydata.clustSize ≤ left := by omega
    have first := resumes_cluster root.fat32 path ⟨Memory.blank, 0, ⟨Memory.blank, none⟩⟩ root.chain
      root.ended coherent behind true
    rw [searchPath_name fuel plain, noSize, fueled, Mounted.rootScan, cluster2, ← start]
    exact ⟨left, 2, rest, _, _, first⟩

/-- On a volume whose root directory starts in cluster 2, `do_fat_read_at` uses the first file with
the name if its search hears the files up to it right. Where the record behind the last file is no
volume label and no two entries are the same, it does so only then. -/
theorem doFatReadAt_findsFirst (disk : DiskRead) (blksz : Nat) (volume : Memory) (mounted : Mounted)
    [clustered : mounted.mydata.Clustered] (clusters : List Nat) (files : List File)
    (filename : List UInt8) (fuel : Nat) (mount : mount disk blksz = some mounted)
    (root : RootDirectory disk volume mounted clusters files) (cluster2 : mounted.rootCluster = 2)
    (nonempty : filename.dropWhile isdirdelim ≠ [])
    (plain : ∀ c ∈ filename.dropWhile isdirdelim, isdirdelim c = false)
    (short : (filename.dropWhile isdirdelim).length < fnamecopySize)
    (enough : clusters.length * mounted.mydata.clustSize ≤ fuel) :
    (Heard mounted.mydata (filename.dropWhile isdirdelim)
        (directoryRecords volume mounted.mydata clusters) files →
      FindsFirst disk blksz volume mounted files filename fuel) ∧
    ((∀ record ∈ (directoryRecords volume mounted.mydata clusters).find?
        (fun record => record.byte 0 = 0), record.attr &&& attrVolume = 0) →
      files.Pairwise (fun file other => file.dent ≠ other.dent) →
      FindsFirst disk blksz volume mounted files filename fuel →
      Heard mounted.mydata (filename.dropWhile isdirdelim)
        (directoryRecords volume mounted.mydata clusters) files) := by
  have plainLower : ∀ c ∈ downcase (filename.dropWhile isdirdelim), isdirdelim c = false := by
    intro c member
    obtain ⟨d, inside, rfl⟩ := List.mem_map.mp member
    rw [isdirdelim_tolower]
    exact plain d inside
  have search := root.resumes mount cluster2 plainLower enough
  have isName : downcase (filename.dropWhile isdirdelim) ≠ [] := by
    simpa only [downcase, ne_eq, List.map_eq_nil_iff] using nonempty
  refine ⟨fun heard => ?_, fun unused distinct finds =>
    search.heard root.fat32 isName root.directory unused distinct finds.entry⟩
  have first := heard.finds root.fat32 isName search
  refine ⟨first, ?_⟩
  intro pos buffer maxsize dogetsize memory
  have fits : ¬fnamecopySize ≤ (downcase (filename.dropWhile isdirdelim)).length := by
    rw [downcase, List.length_map]
    omega
  simp only [doFatReadAt, mount, if_neg fits, if_neg isName, clustered.sectors, ↓reduceDIte]
  unfold FirstNamed at first
  split at first
  · rw [first]
    rfl
  · obtain ⟨cache, coherent, outcome⟩ := first
    rw [outcome]
    exact ⟨cache, coherent, rfl⟩

/-! ## A volume -/

/-- The slot of the long name `hello world`. -/
def helloSlot : Record :=
  [0x41, 0x68, 0, 0x65, 0, 0x6c, 0, 0x6c, 0, 0x6f, 0, 0x0f, 0, 0x36, 0x20, 0, 0x77, 0, 0x6f, 0,
    0x72, 0, 0x6c, 0, 0x64, 0, 0, 0, 0, 0, 0xff, 0xff]

/-- The entry of `HELLOW~1`, a file of five bytes in cluster 4. -/
def helloDent : Record :=
  [0x48, 0x45, 0x4c, 0x4c, 0x4f, 0x57, 0x7e, 0x31, 0x20, 0x20, 0x20, 0x20, 0, 0, 0, 0, 0, 0, 0, 0,
    0, 0, 0, 0, 0, 0, 4, 0, 5, 0, 0, 0]

def helloFile : File := ⟨[helloSlot], helloDent⟩

def helloName : List UInt8 := [0x48, 0x65, 0x6c, 0x6c, 0x6f, 0x20, 0x57, 0x6f, 0x72, 0x6c, 0x64]

/-- The slot of a long name of two characters beyond Latin-1. -/
def foreignSlot : Record :=
  [0x41, 0xe5, 0x65, 0x2c, 0x67, 0, 0, 0xff, 0xff, 0xff, 0xff, 0x0f, 0, 0x36, 0xff, 0xff, 0xff,
    0xff, 0xff, 0xff, 0xff, 0xff, 0xff, 0xff, 0xff, 0xff, 0, 0, 0xff, 0xff, 0xff, 0xff]

/-- The entry of its file, such as `A B`: the short name has a space inside. -/
def foreignDent (c : UInt8) : Record :=
  [0x41, 0x20, c, 0x20, 0x20, 0x20, 0x20, 0x20, 0x20, 0x20, 0x20, 0x20, 0, 0, 0, 0, 0, 0, 0, 0,
    0, 0, 0, 0, 0, 0, 5, 0, 0, 0, 0, 0]

def foreignFile (c : UInt8) : File := ⟨[foreignSlot], foreignDent c⟩

/-- A FAT32 volume with these files, whose root directory is one cluster. Sector 0 is the boot
sector, sector 1 the table, and each cluster has the sector of its number. -/
def helloVolume (rootCluster : UInt8) : Memory :=
  let boot := ((Memory.blank.store 11 [0x00, 0x02, 1, 1, 0, 1]).store 36
    [1, 0, 0, 0, 0, 0, 0, 0, rootCluster]).store 82 fat32Sign
  let table := boot.store 520 (List.replicate 4 [0xff, 0xff, 0xff, 0x0f]).flatten
  table.store (rootCluster.toNat * 512) (foreignSlot ++ foreignDent 0x42 ++ helloSlot ++
    helloDent ++ foreignSlot ++ foreignDent 0x43)

def helloDisk (rootCluster : UInt8) : DiskRead := fun block count =>
  (count, (helloVolume rootCluster).load (block * 512) (count * 512))

def helloMounted (rootCluster : UInt8) : Mounted :=
  ⟨⟨.fat32, 1, 1, 2, 512, 1, 0, usualSector⟩, rootCluster.toNat, 0⟩

instance (rootCluster : UInt8) : (helloMounted rootCluster).mydata.Clustered := ⟨Nat.one_pos⟩

def helloRecords : List Record :=
  foreignSlot :: foreignDent 0x42 :: helloSlot :: helloDent :: foreignSlot :: foreignDent 0x43 ::
    List.replicate 10 (List.replicate 32 0)

def helloFiles : List File := [foreignFile 0x42, helloFile, foreignFile 0x43]

theorem hello_wellFormed : helloFile.WellFormed := by
  refine ⟨?_, ?_, ?_, ?_, ⟨by decide, trivial⟩, ?_, ?_, ?_⟩ <;> decide +kernel

theorem foreign_wellFormed {c : UInt8} (letter : c = 0x42 ∨ c = 0x43) :
    (foreignFile c).WellFormed := by
  rcases letter with rfl | rfl <;>
    refine ⟨?_, ?_, ?_, ?_, ⟨by decide, trivial⟩, ?_, ?_, ?_⟩ <;> decide +kernel

theorem hello_root {rootCluster : UInt8} (choice : rootCluster = 2 ∨ rootCluster = 3) :
    mount (helloDisk rootCluster) 512 = some (helloMounted rootCluster) ∧
      directoryRecords (helloVolume rootCluster) (helloMounted rootCluster).mydata
        [rootCluster.toNat] = helloRecords ∧
      RootDirectory (helloDisk rootCluster) (helloVolume rootCluster) (helloMounted rootCluster)
        [rootCluster.toNat] helloFiles := by
  have mounted : mount (helloDisk rootCluster) 512 = some (helloMounted rootCluster) := by
    rcases choice with rfl | rfl
    · set_option maxRecDepth 100000 in rfl
    · set_option maxRecDepth 100000 in rfl
  have records : directoryRecords (helloVolume rootCluster) (helloMounted rootCluster).mydata
      [rootCluster.toNat] = helloRecords := by
    rcases choice with rfl | rfl <;> decide +kernel
  have directory : Directory helloRecords helloFiles :=
    .file (foreign_wellFormed (.inl rfl))
      (.file hello_wellFormed (.file (foreign_wellFormed (.inr rfl)) (.stop (by decide))))
  refine ⟨mounted, records, ⟨fun _ _ => rfl, rfl, by simp [helloMounted]⟩, ?_, ?_, rfl, ?_,
    records ▸ directory⟩
  · simp [helloMounted, Fsdata.bytesperclust, maxClustsize]
  · refine ⟨by simp, ?_, ?_, ?_, ?_⟩ <;> rcases choice with rfl | rfl <;>
      simp [helloMounted, checkClust, Fsdata.HasEntry, entryEnd]
  · unfold Ended
    rcases choice with rfl | rfl <;> decide +kernel

theorem hello_plain : ∀ c ∈ helloName.dropWhile isdirdelim, isdirdelim c = false := by
  have whole : helloName.dropWhile isdirdelim = helloName := by decide +kernel
  rw [whole]
  simp [helloName, isdirdelim]

/-- The file is found in cluster 2, between two files with names that cannot be read. -/
theorem doFatReadAt_findsFirst_hello :
    FindsFirst (helloDisk 2) 512 (helloVolume 2) (helloMounted 2) helloFiles helloName 1 := by
  obtain ⟨mounted, records, root⟩ := hello_root (.inl rfl)
  refine (doFatReadAt_findsFirst _ 512 _ _ _ helloFiles helloName 1 mounted root rfl (by decide)
    hello_plain (by decide) (by decide)).1 ?_
  rw [records]
  have before : Heard (helloMounted 2).mydata (helloName.dropWhile isdirdelim)
      (helloFile.slots ++ helloFile.dent :: foreignSlot :: foreignDent 0x43 ::
        List.replicate 10 (List.replicate 32 0)) [helloFile, foreignFile 0x43] :=
    .named hello_wellFormed (by decide +kernel) (by decide +kernel)
  exact .other (foreign_wellFormed (.inl rfl)) (by decide +kernel) (by decide +kernel) before

/-- The file is missed in cluster 3: the search starts in cluster 2, which is empty. -/
theorem doFatReadAt_misses_root_cluster :
    ¬∀ (disk : DiskRead) (blksz : Nat) (volume : Memory) (mounted : Mounted)
      [mounted.mydata.Clustered] (clusters : List Nat) (files : List File)
      (filename : List UInt8) (fuel : Nat),
      mount disk blksz = some mounted → RootDirectory disk volume mounted clusters files →
      filename.dropWhile isdirdelim ≠ [] →
      (∀ c ∈ filename.dropWhile isdirdelim, isdirdelim c = false) →
      (filename.dropWhile isdirdelim).length < fnamecopySize →
      clusters.length * mounted.mydata.clustSize ≤ fuel →
      FindsFirst disk blksz volume mounted files filename fuel := by
  intro claim
  obtain ⟨mounted, -, root⟩ := hello_root (.inr rfl)
  have found := (claim _ 512 _ _ _ helloFiles helloName 1 mounted root (by decide) hello_plain
    (by decide) (by decide)).outcome 0 0 0 true Memory.blank
  have named : helloFiles.find? (fun file => file.Named (helloName.dropWhile isdirdelim)) =
      some helloFile := by
    have isNamed : helloFile.Named (helloName.dropWhile isdirdelim) := by decide +kernel
    have foreign : ¬(foreignFile 0x42).Named (helloName.dropWhile isdirdelim) := by decide +kernel
    simp [helloFiles, isNamed, foreign]
  have failed : doFatReadAt (helloDisk 3) 512 helloName 0 0 0 true Memory.blank 1 = some .failed := by
    set_option maxRecDepth 100000 in rfl
  rw [named, failed] at found
  obtain ⟨_, -, same⟩ := found
  cases same

end HrppBoot.Fat
