import HrppBoot.Fat.Names
import HrppBoot.Fat.FileRead

/-!
# Reading a long name

`get_vfatname` finds the entry behind the slots of a long name, in the buffer or at the start of the
next cluster, puts the name together and copies the entry over the first slot. Where the records
from a position of the directory on are the slots and the entry of a file, it returns the name of
the file and its entry.
-/

namespace HrppBoot.Fat

open ByteMemory

/-! ## Records in memory -/

/-- The records from an address on. -/
def recordsFrom (m : Memory) (address : Nat) : Nat → List Record
  | 0 => []
  | count + 1 => m.load address direntSize :: recordsFrom m (address + direntSize) count

/-- The records stand in memory from an address on. -/
def Shows (m : Memory) (address : Nat) : List Record → Prop
  | [] => True
  | record :: rest => m.load address direntSize = record ∧ Shows m (address + direntSize) rest

@[simp]
theorem length_recordsFrom (m : Memory) (address count : Nat) :
    (recordsFrom m address count).length = count := by
  induction count generalizing address with
  | zero => rfl
  | succ count ih => simp [recordsFrom, ih]

theorem shows_recordsFrom {left right : Memory} {a b count : Nat}
    (same : ∀ i < direntSize * count, left (a + i) = right (b + i)) :
    Shows left a (recordsFrom right b count) := by
  induction count generalizing a b with
  | zero => trivial
  | succ count ih =>
    unfold direntSize at *
    refine ⟨Memory.load_eq_load fun i inside => same i (by simp only [direntSize] at inside; omega), ?_⟩
    apply ih
    intro i inside
    have shifted := same (32 + i) (by omega)
    simp only [direntSize, Nat.add_assoc] at shifted ⊢
    exact shifted

variable {address : Nat} {slots : List Record}

theorem shows_append {m : Memory} (first second : List Record) :
    Shows m address (first ++ second) ↔
      Shows m address first ∧ Shows m (address + direntSize * first.length) second := by
  induction first generalizing address with
  | nil => simp [Shows]
  | cons record first ih =>
    have position : address + direntSize + direntSize * first.length =
        address + direntSize * (record :: first).length := by
      rw [List.length_cons]
      ring
    simp only [List.cons_append, Shows, ih, position, and_assoc]

theorem Shows.store {m : Memory} {dst : Nat} {records : List Record} {bytes : List UInt8}
    (shows : Shows m address records) (before : dst + bytes.length ≤ address) :
    Shows (m.store dst bytes) address records := by
  induction records generalizing address with
  | nil => trivial
  | cons record rest ih =>
    refine ⟨?_, ih shows.2 (by omega)⟩
    rw [← shows.1]
    apply Memory.load_eq_load
    intro i _
    exact Memory.store_outside _ _ _ _ (by omega)

/-- The records of a directory. -/
def directoryRecords (volume : Memory) (mydata : Fsdata) (clusters : List Nat) : List Record :=
  clusters.flatMap fun clust => recordsFrom volume (mydata.clusterSect clust * mydata.sectSize)
    (mydata.bytesperclust / direntSize)

/-! ## Slots in order -/

/-- The slots count down to a number. -/
def Countdown : List Record → Nat → Prop
  | [], _ => True
  | slot :: rest, last => slot.seq.toNat = rest.length + last + 1 ∧ Countdown rest last

theorem countdown_append (first second : List Record) (last : Nat) :
    Countdown (first ++ second) last ↔
      Countdown first (second.length + last) ∧ Countdown second last := by
  induction first with
  | nil => simp [Countdown]
  | cons slot first ih =>
    simp only [List.cons_append, Countdown, ih, List.length_append, and_assoc, Nat.add_assoc]

theorem slotId_bits : ∀ n < 20,
    (UInt8.ofNat (n + 1) &&& 0xbf).toNat = n + 1 ∧
      ((UInt8.ofNat (n + 1) ||| lastLongEntryMask) &&& 0xbf).toNat = n + 1 ∧
      UInt8.ofNat (n + 1) &&& lastLongEntryMask = 0 ∧
      (UInt8.ofNat (n + 1) ||| lastLongEntryMask) &&& lastLongEntryMask ≠ 0 ∧
      UInt8.ofNat (n + 1) ≠ 0 ∧ UInt8.ofNat (n + 1) ||| lastLongEntryMask ≠ 0 ∧
      UInt8.ofNat (n + 1) ≠ deletedFlag ∧
      UInt8.ofNat (n + 1) ||| lastLongEntryMask ≠ deletedFlag := by
  decide

theorem Numbered.countdown (numbered : Numbered slots) (short : slots.length ≤ 20)
    : Countdown slots 0 := by
  induction slots with
  | nil => trivial
  | cons slot rest ih =>
    rw [List.length_cons] at short
    refine ⟨?_, ih numbered.2 (by omega)⟩
    rw [Record.seq, numbered.1]
    exact (slotId_bits rest.length (by omega)).1

theorem Numbered.unmarked (numbered : Numbered slots) (short : slots.length ≤ 20) :
    ∀ slot ∈ slots, slot.byte 0 &&& lastLongEntryMask = 0 ∧ slot.byte 0 ≠ 0 := by
  induction slots with
  | nil => simp
  | cons slot rest ih =>
    rw [List.length_cons] at short
    have own := slotId_bits rest.length (by omega)
    rw [List.forall_mem_cons, numbered.1]
    exact ⟨⟨own.2.2.1, own.2.2.2.2.1⟩, ih numbered.2 (by omega)⟩

theorem File.WellFormed.countdown {file : File} (wellFormed : file.WellFormed) :
    Countdown file.slots 0 := by
  have marked := wellFormed.slotId
  have short := wellFormed.slotCount
  cases shape : file.slots with
  | nil => trivial
  | cons slot rest =>
    rw [shape] at marked short
    rw [List.length_cons] at short
    refine ⟨?_, marked.2.countdown (by omega)⟩
    rw [Record.seq, marked.1]
    exact (slotId_bits rest.length (by omega)).2.1

theorem skipSlots_countdown {cluster : Memory} {slotptr buflimit last : Nat}
    (shows : Shows cluster slotptr slots) (countdown : Countdown slots last)
    (inside : slotptr + direntSize * slots.length ≤ buflimit) :
    skipSlots cluster slotptr buflimit (slots.length + last) =
      skipSlots cluster (slotptr + direntSize * slots.length) buflimit last := by
  induction slots generalizing slotptr with
  | nil => simp
  | cons slot rest ih =>
    have position : slotptr + direntSize + direntSize * rest.length =
        slotptr + direntSize * (slot :: rest).length := by
      rw [List.length_cons]
      ring
    have more : slotptr < buflimit := by
      unfold direntSize at *
      omega
    have next := ih shows.2 countdown.2 (by omega)
    rw [List.length_cons, Nat.add_right_comm, skipSlots, if_pos more, shows.1, countdown.1,
      if_neg (by simp), next, position, List.length_cons]

theorem matchSlots_countdown {block : Memory} {slotptr : Nat} (shows : Shows block slotptr slots)
    (countdown : Countdown slots 0) :
    matchSlots block slotptr slots.length = some (slotptr + direntSize * slots.length) := by
  induction slots generalizing slotptr with
  | nil => simp [matchSlots]
  | cons slot rest ih =>
    have position : slotptr + direntSize + direntSize * rest.length =
        slotptr + direntSize * (slot :: rest).length := by
      rw [List.length_cons]
      ring
    rw [List.length_cons, matchSlots, shows.1, countdown.1, if_neg (by simp),
      ih shows.2 countdown.2, position, List.length_cons]

theorem collectBlock_eq {block : Memory} (slots : List Record) (shows : Shows block 0 slots) :
    collectBlock block slots.length = slotString slots := by
  induction slots using List.reverseRecOn with
  | nil => rfl
  | append_singleton slots slot ih =>
    obtain ⟨before, last⟩ := (shows_append slots [slot]).mp shows
    rw [Nat.zero_add, Nat.mul_comm] at last
    rw [List.length_append, List.length_singleton, collectBlock, last.1, ih before]
    simp [slotString]

/-- The slots in the buffer are put together back to the first, or to one with a NUL. -/
theorem collectSlots_eq {cluster : Memory} {slot : Record}
    (marked : slot.byte 0 &&& lastLongEntryMask ≠ 0) (rest : List Record)
    (shows : Shows cluster address (slot :: rest))
    (unmarked : ∀ slot ∈ rest, slot.byte 0 &&& lastLongEntryMask = 0) (behind : List UInt8) :
    collectSlots cluster (address + direntSize * (slot :: rest).length) behind =
      some (behind ++ readNear (slot :: rest).reverse) := by
  induction rest using List.reverseRecOn generalizing behind with
  | nil =>
    have inside : ¬address + direntSize * [slot].length < direntSize := by simp
    have back : address + direntSize * [slot].length - direntSize = address := by simp
    rw [collectSlots, dif_neg inside]
    simp only [back, shows.1, if_pos marked, ite_self]
    simp [readNear]
  | append_singleton rest last ih =>
    rw [← List.cons_append] at shows
    obtain ⟨before, own⟩ := (shows_append (slot :: rest) [last]).mp shows
    have inside : ¬address + direntSize * (slot :: (rest ++ [last])).length < direntSize := by
      unfold direntSize
      simp
      omega
    have back : address + direntSize * (slot :: (rest ++ [last])).length - direntSize =
        address + direntSize * (slot :: rest).length := by
      unfold direntSize
      simp
      omega
    have plain := unmarked last (by simp)
    have farther := ih before fun slot member => unmarked slot (by simp [member])
    rw [collectSlots, dif_neg inside]
    simp only [back, own.1, plain, ne_eq, not_true_eq_false, ↓reduceIte, farther]
    rw [← List.cons_append, List.reverse_append, List.reverse_singleton, List.singleton_append,
      readNear]
    cases (slot2str last).2 <;> simp

/-! ## Names in a directory -/

/-- A scan of a directory, with the rest of its clusters and the records ahead in the buffer. -/
structure Position (volume : Memory) (mydata : Fsdata) (clust : Nat) (rest : List Nat) (scan : Scan)
    (ahead : List Record) : Prop where
  chain : ValidChain volume mydata (clust :: rest)
  shows : Shows scan.block scan.dentptr ahead
  limit : scan.dentptr + direntSize * ahead.length = mydata.bytesperclust
  coherent : Coherent volume mydata scan.cache

theorem shows_cluster (volume : Memory) (mydata : Fsdata) (clust : Nat) (block : Memory) :
    Shows (block.store 0 (volume.load (mydata.clusterSect clust * mydata.sectSize)
        mydata.bytesperclust)) 0
      (recordsFrom volume (mydata.clusterSect clust * mydata.sectSize)
        (mydata.bytesperclust / direntSize)) := by
  apply shows_recordsFrom
  intro i inside
  have whole := Nat.mul_div_le mydata.bytesperclust direntSize
  have covered : i < mydata.bytesperclust := by omega
  rw [Nat.zero_add, Memory.store_load _ _ ⟨Nat.zero_le i, by omega⟩, Nat.sub_zero]

theorem prefix_of_append {α : Type} {first second before more : List α} {a : α}
    (same : first ++ second = before ++ a :: more) (long : before.length < first.length) :
    ∃ behind, first = before ++ a :: behind := by
  obtain ⟨extra, rfl, -⟩ | ⟨extra, rfl, tail⟩ := List.append_eq_append_iff.mp same
  · simp at long
  · cases extra with
    | nil => simp at long
    | cons b extra =>
      rw [List.cons_append, List.cons.injEq] at tail
      exact ⟨extra, by rw [tail.1]⟩

/-! ## Slots of a name -/

/-- The slots of a name, in the order of the directory. -/
structure SlotOrder (slot : Record) (rest : List Record) : Prop where
  /-- There are at most `VFAT_MAXSEQ`. -/
  count : (slot :: rest).length ≤ vfatMaxseq
  countdown : Countdown (slot :: rest) 0
  marked : slot.byte 0 &&& lastLongEntryMask ≠ 0
  unmarked : ∀ other ∈ rest, other.byte 0 &&& lastLongEntryMask = 0

/-- The slots of a name without a NUL before its end. -/
structure SlotRun (slot : Record) (rest : List Record) (name : List UInt8) : Prop
    extends SlotOrder slot rest where
  full : ∀ other ∈ rest, (slot2str other).2 = false
  string : slotString (slot :: rest) = name

section Slots

variable {slot : Record} {rest near beyond : List Record} {name : List UInt8}

theorem SlotRun.readSlots (run : SlotRun slot rest name) (count : Nat) :
    readSlots count (slot :: rest) = name :=
  (readSlots_full _ count run.full).trans run.string

theorem SlotOrder.fits (order : SlotOrder slot rest) (count : Nat) :
    ¬vfatMaxlenBytes ≤ (readSlots count (slot :: rest)).length := by
  have few := order.count
  have bound := length_readSlots_le count (slot :: rest)
  unfold vfatMaxseq at few
  unfold vfatMaxlenBytes
  omega

theorem SlotOrder.collect (order : SlotOrder slot (near ++ beyond)) {cluster : Memory}
    {address : Nat} (shows : Shows cluster address (slot :: near)) :
    collectSlots cluster (address + direntSize * (slot :: near).length) (slotString beyond) =
      some (readSlots (slot :: near).length (slot :: (near ++ beyond))) := by
  rw [collectSlots_eq order.marked near shows
    (fun other member => order.unmarked other (List.mem_append_left _ member)), readSlots,
    ← List.cons_append, List.drop_left, List.take_left]

variable {disk : DiskRead} {mydata : Fsdata} {cache : FatCache} {clust retdent : Nat}
  {cluster : Memory} (nonzero : clust ≠ 0)
include nonzero

theorem buflimit_eq :
    (0 + mydata.sectSize * if clust = 0 then prefetchBlocks else mydata.clustSize) =
      mydata.bytesperclust := by
  rw [if_neg nonzero, Nat.zero_add, Nat.mul_comm]
  rfl

theorem SlotOrder.vfatname_inside (order : SlotOrder slot rest)
    (shows : Shows cluster retdent (slot :: rest))
    (inside : retdent + direntSize * (slot :: rest).length < mydata.bytesperclust) :
    getVfatname disk mydata cache clust cluster 0 retdent =
      some ⟨finishName (readSlots (slot :: rest).length (slot :: rest)), cluster.store retdent
        (cluster.load (retdent + direntSize * (slot :: rest).length) direntSize), cache⟩ := by
  have counter : (Record.seq (cluster.load retdent direntSize)).toNat = (slot :: rest).length := by
    rw [shows.1]
    exact order.countdown.1
  have skip := skipSlots_countdown shows order.countdown inside.le
  have whole : SlotOrder slot (rest ++ []) := by
    rw [List.append_nil]
    exact order
  have collected := whole.collect shows
  have short : ¬vfatMaxseq < (slot :: rest).length := Nat.not_lt.mpr order.count
  rw [Nat.add_zero, skipSlots] at skip
  rw [show slotString [] = [] from rfl, List.append_nil] at collected
  simp only [getVfatname, counter, buflimit_eq nonzero, if_neg short, skip, if_pos inside,
    finishVfatname, collected, if_neg (order.fits _)]

/-- The entry, and maybe some of the slots, are in the next cluster. -/
theorem SlotOrder.vfatname_across (order : SlotOrder slot (near ++ beyond))
    (shows : Shows cluster retdent (slot :: near))
    (limit : retdent + direntSize * (slot :: near).length = mydata.bytesperclust) {next : Nat}
    {after : FatCache} (link : getFatent disk mydata cache clust = (next, after))
    (valid : checkClust next mydata.fatsize = false) {block : Memory}
    (read : getCluster disk mydata next 0 mydata.bytesperclust Memory.blank = (true, block))
    (behind : Shows block 0 beyond) :
    getVfatname disk mydata cache clust cluster 0 retdent =
      some ⟨finishName (readSlots (slot :: near).length (slot :: (near ++ beyond))),
        cluster.store retdent (block.load (direntSize * beyond.length) direntSize), after⟩ := by
  have counter : (Record.seq (cluster.load retdent direntSize)).toNat =
      (slot :: (near ++ beyond)).length := by
    rw [shows.1]
    exact order.countdown.1
  have countdown := order.countdown
  rw [← List.cons_append, countdown_append] at countdown
  have walked := skipSlots_countdown shows countdown.1 limit.le
  rw [limit] at walked
  have skip : skipSlots cluster retdent mydata.bytesperclust (slot :: (near ++ beyond)).length =
      some (mydata.bytesperclust, beyond.length) := by
    rw [← List.cons_append, List.length_append, ← Nat.add_zero beyond.length, walked]
    cases beyond.length <;> simp [skipSlots]
  have matched := matchSlots_countdown behind countdown.2
  rw [Nat.zero_add] at matched
  have collected := order.collect shows
  rw [limit] at collected
  have quotient : direntSize * beyond.length / direntSize = beyond.length :=
    Nat.mul_div_cancel_left _ (by decide)
  have short : ¬vfatMaxseq < (slot :: (near ++ beyond)).length := Nat.not_lt.mpr order.count
  simp only [getVfatname, counter, buflimit_eq nonzero, if_neg short, skip, Nat.lt_irrefl,
    ↓reduceIte]
  simp only [if_neg nonzero, link, valid, ↓reduceIte, Bool.false_eq_true, read, Bool.not_true,
    matched, quotient, collectBlock_eq beyond behind, finishVfatname, collected,
    if_neg (order.fits _)]

theorem SlotRun.vfatname_inside (run : SlotRun slot rest name)
    (shows : Shows cluster retdent (slot :: rest))
    (inside : retdent + direntSize * (slot :: rest).length < mydata.bytesperclust) :
    getVfatname disk mydata cache clust cluster 0 retdent =
      some ⟨finishName name, cluster.store retdent
        (cluster.load (retdent + direntSize * (slot :: rest).length) direntSize), cache⟩ := by
  rw [run.toSlotOrder.vfatname_inside nonzero shows inside, run.readSlots]

theorem SlotRun.vfatname_across (run : SlotRun slot (near ++ beyond) name)
    (shows : Shows cluster retdent (slot :: near))
    (limit : retdent + direntSize * (slot :: near).length = mydata.bytesperclust) {next : Nat}
    {after : FatCache} (link : getFatent disk mydata cache clust = (next, after))
    (valid : checkClust next mydata.fatsize = false) {block : Memory}
    (read : getCluster disk mydata next 0 mydata.bytesperclust Memory.blank = (true, block))
    (behind : Shows block 0 beyond) :
    getVfatname disk mydata cache clust cluster 0 retdent =
      some ⟨finishName name, cluster.store retdent
        (block.load (direntSize * beyond.length) direntSize), after⟩ := by
  rw [run.toSlotOrder.vfatname_across nonzero shows limit link valid read behind, run.readSlots]

end Slots

theorem length_directoryRecords (volume : Memory) (mydata : Fsdata) (clusters : List Nat) :
    (directoryRecords volume mydata clusters).length =
      clusters.length * (mydata.bytesperclust / direntSize) := by
  induction clusters with
  | nil => simp [directoryRecords]
  | cons clust rest ih =>
    rw [directoryRecords, List.flatMap_cons, List.length_append, length_recordsFrom,
      List.length_cons, Nat.add_mul, Nat.one_mul, Nat.add_comm]
    exact congrArg (· + _) ih

/-- How many of so many records up to the end of the directory are in the cluster of the first. -/
def Fsdata.nearRecords (mydata : Fsdata) (records : Nat) : Nat :=
  (records - 1) % (mydata.bytesperclust / direntSize) + 1

theorem nearRecords_eq {mydata : Fsdata} {near : Nat} (clusters : Nat) (some : 0 < near)
    (most : near ≤ mydata.bytesperclust / direntSize) :
    mydata.nearRecords (near + clusters * (mydata.bytesperclust / direntSize)) = near := by
  rw [Fsdata.nearRecords, show near + clusters * (mydata.bytesperclust / direntSize) - 1 =
    near - 1 + clusters * (mydata.bytesperclust / direntSize) by omega, Nat.add_mul_mod_self_right,
    Nat.mod_eq_of_lt (by omega)]
  omega

section Volume

variable {disk : DiskRead} {volume : Memory} {mydata : Fsdata} {clust : Nat} {rest : List Nat}
  {scan : Scan} {ahead : List Record} (position : Position volume mydata clust rest scan ahead)
  {slot dent : Record} {slots : List Record} (order : SlotOrder slot slots)
include position

theorem Position.clust_ne_zero : clust ≠ 0 := by
  have bounds := clust_bounds (position.chain.inRange clust (List.mem_cons_self ..))
  omega

theorem Position.near (some : ahead ≠ []) {records : List Record}
    (split : records = ahead ++ directoryRecords volume mydata rest) :
    mydata.nearRecords records.length = ahead.length := by
  have limit := position.limit
  rw [split, List.length_append, length_directoryRecords]
  apply nearRecords_eq _ (List.length_pos_of_ne_nil some)
  rw [Nat.le_div_iff_mul_le (by decide), Nat.mul_comm]
  omega

include order

theorem getVfatname_inside {behind : List Record}
    (records : ahead = slot :: slots ++ dent :: behind) :
    getVfatname disk mydata scan.cache clust scan.block 0 scan.dentptr =
      .some ⟨finishName (readSlots ahead.length (slot :: slots)), scan.block.store scan.dentptr dent,
        scan.cache⟩ := by
  have shows := position.shows
  have limit := position.limit
  rw [records, shows_append] at shows
  rw [records, List.length_append, List.length_cons] at limit
  have inside : scan.dentptr + direntSize * (slot :: slots).length < mydata.bytesperclust := by
    unfold direntSize at *
    rw [List.length_cons] at *
    omega
  have whole : readSlots ahead.length (slot :: slots) =
      readSlots (slot :: slots).length (slot :: slots) := by
    have long : (slot :: slots).length ≤ ahead.length := by simp [records]
    rw [readSlots, readSlots, List.drop_of_length_le long, List.take_of_length_le long,
      List.drop_length, List.take_length]
  rw [order.vfatname_inside position.clust_ne_zero shows.1 inside, shows.2.1, whole]

theorem getVfatname_across (reads : Reads disk mydata.sectSize volume) (even : 2 ∣ mydata.sectSize)
    (enough : vfatMaxseq < mydata.bytesperclust / direntSize) (some : ahead ≠ [])
    {beyond more : List Record} (split : slot :: slots = ahead ++ beyond)
    (records : directoryRecords volume mydata rest = beyond ++ dent :: more) :
    ∃ cache, Coherent volume mydata cache ∧
      getVfatname disk mydata scan.cache clust scan.block 0 scan.dentptr =
        .some ⟨finishName (readSlots ahead.length (slot :: slots)),
          scan.block.store scan.dentptr dent, cache⟩ := by
  obtain ⟨first, near, rfl⟩ := List.exists_cons_of_ne_nil some
  rw [List.cons_append, List.cons.injEq] at split
  obtain ⟨rfl, rfl⟩ := split
  have count := order.count
  rw [← List.cons_append, List.length_append] at count
  cases rest with
  | nil => simp [directoryRecords] at records
  | cons next rest =>
    obtain ⟨cache, entry, coherent, valid⟩ :=
      getFatent_next reads even position.coherent position.chain
    have whole : mydata.bytesperclust ≤ 1 * mydata.bytesperclust := by omega
    have addressable := ValidChain.addressable position.chain.tail Nat.one_pos whole
    have read := getCluster_spec reads 0 mydata.bytesperclust Memory.blank addressable
    have shows := shows_cluster volume mydata next Memory.blank
    obtain ⟨behind, first⟩ : ∃ behind, recordsFrom volume
        (mydata.clusterSect next * mydata.sectSize) (mydata.bytesperclust / direntSize) =
          beyond ++ dent :: behind := by
      apply prefix_of_append records
      rw [length_recordsFrom]
      omega
    rw [first, shows_append, Nat.zero_add] at shows
    refine ⟨cache, coherent, ?_⟩
    rw [order.vfatname_across position.clust_ne_zero position.shows position.limit entry valid read
      shows.1, shows.2.1]

end Volume

/-- The slots of a file with a name that is not too long. -/
theorem File.WellFormed.slotOrder {file : File} (wellFormed : file.WellFormed) {slot : Record}
    {rest : List Record} (shape : file.slots = slot :: rest) (few : rest.length < vfatMaxseq) :
    SlotOrder slot rest := by
  have marked := wellFormed.slotId
  have count := wellFormed.slotCount
  have countdown := wellFormed.countdown
  rw [shape] at marked count countdown
  rw [List.length_cons] at count
  have unmarked := marked.2.unmarked (by omega)
  refine ⟨few, countdown, ?_, fun other member => (unmarked other member).1⟩
  rw [marked.1]
  exact (slotId_bits rest.length (by omega)).2.2.2.1

end HrppBoot.Fat
