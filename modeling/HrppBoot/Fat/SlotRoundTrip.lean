import HrppBoot.Fat.SlotWriter

/-!
# A long name that is written is read back

The slots that `fill_dir_slot` writes, with an entry behind them, are the slots of the name:
`get_vfatname` returns the name in lower case and the entry, whether they stand in one cluster of
the directory or go on in the next.
-/

namespace HrppBoot.Fat

open ByteMemory

section Write

variable {flush : Nat → Memory → Flush} {mydata : Fsdata} {table : DirTable}
  {room : Nat} {slots : List Record}

theorem shows_entry {block : Memory} {address : Nat} {dent : Record}
    (shows : Shows block address slots) (size : ∀ slot ∈ slots, slot.length = direntSize)
    (dentLength : dent.length = direntSize) :
    Shows (block.store (address + direntSize * slots.length) dent) address (slots ++ [dent]) := by
  refine (shows_append ..).mpr ⟨?_, ?_, trivial⟩
  · induction slots generalizing address with
    | nil => trivial
    | cons slot slots ih =>
      have position : address + direntSize * (slot :: slots).length =
          address + direntSize + direntSize * slots.length := by
        simp only [List.length_cons, direntSize]
        omega
      rw [position]
      refine ⟨?_, ih shows.2 fun other member => size other (List.mem_cons_of_mem _ member)⟩
      rw [← shows.1]
      apply Memory.load_eq_load
      intro i less
      exact Memory.store_outside _ _ _ _ (by omega)
  · have stored := (Memory.store_holds block (address + direntSize * slots.length) dent).load
    rw [dentLength] at stored
    exact stored

variable (limit : table.dentptr + direntSize * room = mydata.bytesperclust)
  (size : ∀ slot ∈ slots, slot.length = direntSize)
include limit size

theorem writeSlots_one (few : slots.length < room) {dent : Record}
    (dentLength : dent.length = direntSize) :
    ∃ image, (nextClust flush mydata (writeSlots flush mydata table slots)).images dent =
        table.flushed.map Prod.snd ++ [image] ∧
      Shows image table.dentptr (slots ++ [dent]) := by
  obtain ⟨block, wrote, shows, -⟩ := writeSlots_inside flush mydata table size fun k less => by
    simp only [direntSize] at limit ⊢
    omega
  have stays : nextClust flush mydata (writeSlots flush mydata table slots) =
      writeSlots flush mydata table slots := by
    rw [nextClust, if_neg]
    rw [wrote]
    simp only [isNextClust, decide_eq_true_eq]
    unfold direntSize at *
    omega
  rw [stays, wrote]
  exact ⟨_, rfl, shows_entry shows size dentLength⟩

variable [mydata.Clustered]

/-- Otherwise those that fill the cluster are in the buffer that is flushed, and the others go on in
the next one. -/
theorem writeSlots_moved
    (succeeds : ∀ clust block, ∃ dirNewclust, flush clust block = .done dirNewclust)
    (many : room ≤ slots.length) :
    ∃ image blank dirNewclust, Shows image table.dentptr (slots.take room) ∧
      nextClust flush mydata (writeSlots flush mydata table slots) =
        nextClust flush mydata (writeSlots flush mydata
          ⟨blank, 0, dirNewclust, table.flushed ++ [(table.dirCurclust, image)]⟩
          (slots.drop room)) := by
  have near : (slots.take room).length = room := by
    rw [List.length_take]
    omega
  have sizeNear : ∀ slot ∈ slots.take room, slot.length = direntSize := fun slot member =>
    size slot (List.mem_of_mem_take member)
  obtain ⟨image, filled, shows, -⟩ := writeSlots_inside flush mydata table sizeNear fun k less => by
    rw [near] at less
    simp only [direntSize] at limit ⊢
    omega
  rw [near, limit] at filled
  have split : writeSlots flush mydata table slots =
      writeSlots flush mydata (writeSlots flush mydata table (slots.take room))
        (slots.drop room) := by
    rw [← writeSlots_append, List.take_append_drop]
  obtain ⟨blank, dirNewclust, done⟩ := flushDirTable_done mydata succeeds
    { table with block := image, dentptr := mydata.bytesperclust }
  have moved : nextClust flush mydata (writeSlots flush mydata table (slots.take room)) =
      ⟨blank, 0, dirNewclust, table.flushed ++ [(table.dirCurclust, image)]⟩ := by
    rw [filled, nextClust, if_pos (by simp [isNextClust]), done]
  refine ⟨image, blank, dirNewclust, shows, ?_⟩
  rw [split, nextClust_writeSlots mydata succeeds, moved]

theorem writeSlots_two
    (succeeds : ∀ clust block, ∃ dirNewclust, flush clust block = .done dirNewclust)
    (many : room ≤ slots.length) {dent : Record} (dentLength : dent.length = direntSize)
    (short : direntSize * (slots.drop room).length < mydata.bytesperclust) :
    ∃ first second, (nextClust flush mydata (writeSlots flush mydata table slots)).images dent =
        table.flushed.map Prod.snd ++ [first, second] ∧
      Shows first table.dentptr (slots.take room) ∧
      Shows second 0 (slots.drop room ++ [dent]) := by
  have sizeBeyond : ∀ slot ∈ slots.drop room, slot.length = direntSize := fun slot member =>
    size slot (List.mem_of_mem_drop member)
  obtain ⟨image, blank, dirNewclust, shows, moved⟩ := writeSlots_moved limit size succeeds many
  obtain ⟨block, wrote, behind, -⟩ := writeSlots_inside flush mydata
    ⟨blank, 0, dirNewclust, table.flushed ++ [(table.dirCurclust, image)]⟩ sizeBeyond
    fun k less => by
      simp only [direntSize] at short ⊢
      omega
  dsimp only at wrote behind
  rw [Nat.zero_add] at wrote
  have stays : nextClust flush mydata (writeSlots flush mydata
      ⟨blank, 0, dirNewclust, table.flushed ++ [(table.dirCurclust, image)]⟩ (slots.drop room)) =
      ⟨block, direntSize * (slots.drop room).length, dirNewclust,
        table.flushed ++ [(table.dirCurclust, image)]⟩ := by
    rw [wrote, nextClust, if_neg]
    simpa [isNextClust] using short
  have entry := shows_entry behind sizeBeyond dentLength
  rw [Nat.zero_add] at entry
  rw [moved, stays]
  exact ⟨image, _, by simp [DirTable.images], shows, entry⟩

/-- Where one buffer is flushed the others and the entry fit in the next cluster. -/
theorem writeSlots_short
    (succeeds : ∀ clust block, ∃ dirNewclust, flush clust block = .done dirNewclust)
    (many : room ≤ slots.length)
    (two : (nextClust flush mydata (writeSlots flush mydata table slots)).flushed.length =
      table.flushed.length + 1) :
    direntSize * (slots.drop room).length < mydata.bytesperclust := by
  obtain ⟨image, blank, dirNewclust, -, moved⟩ := writeSlots_moved limit size succeeds many
  by_contra reach
  have more := writeSlots_reach mydata succeeds
    ⟨blank, 0, dirNewclust, table.flushed ++ [(table.dirCurclust, image)]⟩ (slots.drop room)
    (by simpa using Nat.not_lt.mp reach)
  rw [← moved, two] at more
  simp at more

end Write

/-! ## Reading the name back -/

theorem finishName_plain {name : List UInt8}
    (first : name.head? ≠ some aRing ∧ name.head? ≠ some deletedFlag) :
    finishName name = downcase name := by
  cases name with
  | nil => rfl
  | cons c name =>
    simp only [List.head?_cons, ne_eq, Option.some.injEq] at first
    simp [finishName, first.1, first.2]

theorem fillDirSlot_slots (flush : Nat → Memory → Flush) (mydata : Fsdata) (table : DirTable)
    {name : List UInt8} (chars : ∀ c ∈ name, c ≠ 0) (short : name.length ≤ 117) :
    ∃ slot others, SlotRun slot others name ∧
      (∀ other ∈ slot :: others, other.length = direntSize) ∧
      fillDirSlot flush mydata table name =
        nextClust flush mydata (writeSlots flush mydata table (slot :: others)) := by
  obtain ⟨slot, others, made, run, size⟩ := markLast_slots
    (mkcksum (Record.base (table.block.load table.dentptr direntSize))
      (Record.ext (table.block.load table.dentptr direntSize))) chars short
  have all : (slot :: others).take (UInt8.ofNat (slot :: others).length).toNat =
      slot :: others := by
    have count := run.count
    unfold vfatMaxseq at count
    apply List.take_of_length_le
    rw [UInt8.toNat_ofNat']
    omega
  exact ⟨slot, others, run, size, by simp only [fillDirSlot, made, all]⟩

section Read

variable {disk : DiskRead} {volume : Memory} {mydata : Fsdata} [mydata.Clustered]

omit [mydata.Clustered] in
theorem shows_written {next : Nat} {second : Memory} {records : List Record}
    (written : ∀ i < mydata.bytesperclust,
      volume (mydata.clusterSect next * mydata.sectSize + i) = second i)
    {address : Nat} (shows : Shows second address records)
    (inside : address + direntSize * records.length ≤ mydata.bytesperclust) :
    Shows (Memory.store Memory.blank 0
      (volume.load (mydata.clusterSect next * mydata.sectSize) mydata.bytesperclust))
      address records := by
  induction records generalizing address with
  | nil => trivial
  | cons record records ih =>
    have position : address + direntSize * (record :: records).length =
        address + direntSize + direntSize * records.length := by
      simp only [List.length_cons, direntSize]
      omega
    rw [position] at inside
    refine ⟨?_, ih shows.2 inside⟩
    rw [← shows.1]
    apply Memory.load_eq_load
    intro i less
    have covered : address + i < mydata.bytesperclust := by omega
    rw [Memory.store_load _ _ ⟨Nat.zero_le _, by omega⟩, Nat.sub_zero, written _ covered]

theorem nextClust_room {flush : Nat → Memory → Flush}
    (succeeds : ∀ clust block, ∃ dirNewclust, flush clust block = .done dirNewclust)
    {table : DirTable} (aligned : direntSize ∣ table.dentptr)
    (whole : direntSize ∣ mydata.bytesperclust) :
    ∃ room, 0 < room ∧
      (nextClust flush mydata table).dentptr + direntSize * room = mydata.bytesperclust := by
  have positive : 0 < mydata.bytesperclust := mydata.nonempty
  obtain ⟨records, whole⟩ := whole
  obtain ⟨before, aligned⟩ := aligned
  by_cases ends : isNextClust mydata table.dentptr = true
  · obtain ⟨block, dirNewclust, done⟩ := flushDirTable_done mydata succeeds table
    have moved : (nextClust flush mydata table).dentptr = 0 := by
      rw [nextClust, if_pos ends, done]
    refine ⟨records, ?_, by omega⟩
    unfold direntSize at whole
    omega
  · have stays : nextClust flush mydata table = table := by rw [nextClust, if_neg ends]
    have inside : table.dentptr < mydata.bytesperclust := by
      simpa [isNextClust] using ends
    refine ⟨records - before, ?_, ?_⟩
    · unfold direntSize at *
      omega
    · rw [stays, aligned, whole]
      unfold direntSize at *
      omega

/-- The slots of a name of at most 117 characters, with an entry behind them, are read as the name
in lower case and the entry: in the buffer of the cluster where they start, or in that buffer and
the next cluster of the directory. Clusters of 320 bytes or more leave no third way. -/
theorem fillDirSlot_roundTrip (reads : Reads disk mydata.sectSize volume)
    (even : 2 ∣ mydata.sectSize) (clust : Nat) (rest : List Nat)
    (chain : ValidChain volume mydata (clust :: rest)) (cache : FatCache)
    (coherent : Coherent volume mydata cache) (flush : Nat → Memory → Flush)
    (succeeds : ∀ clust block, ∃ dirNewclust, flush clust block = .done dirNewclust)
    (table : DirTable) (aligned : direntSize ∣ table.dentptr)
    (whole : direntSize ∣ mydata.bytesperclust) (name : List UInt8)
    (short : name.length ≤ 117) (chars : ∀ c ∈ name, c ≠ 0)
    (first : name.head? ≠ some aRing ∧ name.head? ≠ some deletedFlag) (dent : Record)
    (dentLength : dent.length = direntSize) :
    let start := nextClust flush mydata table
    let images := (fillDirSlot flush mydata table name).images dent
    (320 ≤ mydata.bytesperclust →
      (∃ image, images = start.flushed.map Prod.snd ++ [image]) ∨
        ∃ image second, images = start.flushed.map Prod.snd ++ [image, second]) ∧
    (∀ image, images = start.flushed.map Prod.snd ++ [image] →
      getVfatname disk mydata cache clust image 0 start.dentptr =
        some ⟨downcase name, image.store start.dentptr dent, cache⟩) ∧
    ∀ image second next others, images = start.flushed.map Prod.snd ++ [image, second] →
      rest = next :: others →
      (∀ i < mydata.bytesperclust,
        volume (mydata.clusterSect next * mydata.sectSize + i) = second i) →
      ∃ after, Coherent volume mydata after ∧
        getVfatname disk mydata cache clust image 0 start.dentptr =
          some ⟨downcase name, image.store start.dentptr dent, after⟩ := by
  intro start images
  have nonzero : clust ≠ 0 := by
    have bounds := clust_bounds (chain.inRange clust (List.mem_cons_self ..))
    omega
  obtain ⟨room, some_room, limit⟩ : ∃ room, 0 < room ∧
      start.dentptr + direntSize * room = mydata.bytesperclust :=
    nextClust_room succeeds aligned whole
  obtain ⟨slot, others, run, size, made⟩ :=
    fillDirSlot_slots flush mydata table chars short
  have filled : fillDirSlot flush mydata table name =
      nextClust flush mydata (writeSlots flush mydata start (slot :: others)) :=
    made.trans (nextClust_writeSlots mydata succeeds table _)
  have lower : finishName name = downcase name := finishName_plain first
  have two_images : images = (nextClust flush mydata
      (writeSlots flush mydata start (slot :: others))).images dent :=
    congrArg (·.images dent) filled
  by_cases few : (slot :: others).length < room
  · obtain ⟨own, same, shows⟩ :=
      @writeSlots_one flush mydata start room _ limit size few dent dentLength
    rw [← two_images] at same
    obtain ⟨before, entry, -⟩ := (shows_append (slot :: others) [dent]).mp shows
    refine ⟨fun _ => .inl ⟨own, same⟩, ?_, ?_⟩
    · intro image single
      rw [same, List.append_cancel_left_eq, List.singleton_inj] at single
      subst single
      have inside : start.dentptr + direntSize * (slot :: others).length <
          mydata.bytesperclust := by
        unfold direntSize at *
        omega
      rw [run.vfatname_inside nonzero before inside, entry, lower]
    · intro image second next rest' both
      rw [same] at both
      simp at both
  · have many : room ≤ (slot :: others).length := Nat.not_lt.mp few
    have flushes : start.flushed.length < images.length - 1 := by
      have reach := writeSlots_reach mydata succeeds start (slot :: others) (by
        unfold direntSize at *
        omega)
      rw [two_images]
      simpa [DirTable.images] using reach
    have straddles := fun short => @writeSlots_two flush mydata start room _ limit size _ succeeds
      many dent dentLength short
    refine ⟨fun wide => ?_, ?_, ?_⟩
    · obtain ⟨image, second, same, -⟩ := straddles (by
        have count := run.count
        rw [List.length_drop]
        unfold vfatMaxseq direntSize at *
        omega)
      exact .inr ⟨image, second, two_images.trans same⟩
    · intro image single
      rw [single] at flushes
      simp at flushes
    · rintro image second next rest' both rfl written
      have two : (nextClust flush mydata (writeSlots flush mydata start
          (slot :: others))).flushed.length = start.flushed.length + 1 := by
        have lengths := congrArg List.length (two_images.symm.trans both)
        simpa [DirTable.images] using lengths
      have inside := writeSlots_short limit size succeeds many two
      obtain ⟨own, own', same, near, beyond⟩ := straddles inside
      rw [← two_images, both, List.append_cancel_left_eq] at same
      simp only [List.cons.injEq, and_true] at same
      obtain ⟨rfl, rfl⟩ := same
      obtain ⟨room, rfl⟩ := Nat.exists_eq_succ_of_ne_zero some_room.ne'
      rw [Nat.succ_eq_add_one, List.take_succ_cons] at near
      rw [Nat.succ_eq_add_one, List.drop_succ_cons] at beyond inside
      obtain ⟨after, link, coherent', valid⟩ := getFatent_next reads even coherent chain
      have addressable := ValidChain.addressable chain.tail Nat.one_pos
        (show mydata.bytesperclust ≤ 1 * mydata.bytesperclust by omega)
      have read := getCluster_spec reads 0 mydata.bytesperclust Memory.blank addressable
      have split : others.take room ++ others.drop room = others := List.take_append_drop ..
      have filledUp : (slot :: others.take room).length = room + 1 := by
        rw [List.length_cons] at many ⊢
        rw [List.length_take]
        omega
      have fitting : 0 + direntSize * (others.drop room ++ [dent]).length ≤
          mydata.bytesperclust := by
        obtain ⟨records, whole⟩ := whole
        rw [List.length_append, List.length_singleton]
        unfold direntSize at *
        omega
      have shows := shows_written written beyond fitting
      obtain ⟨behind, entry, -⟩ := (shows_append ..).mp shows
      rw [Nat.zero_add] at entry
      rw [← split] at run
      rw [Nat.succ_eq_add_one, ← filledUp] at limit
      refine ⟨after, coherent', ?_⟩
      rw [run.vfatname_across nonzero near limit link valid read behind, entry, lower]

end Read

/-- The last record of the first of two clusters, 2 and 3. -/
def lastRecord : DirTable := ⟨Memory.blank, 480, 2, []⟩

/-- `Straddling Name.txt` -/
def straddlingName : List UInt8 :=
  [83, 116, 114, 97, 100, 100, 108, 105, 110, 103, 32, 78, 97, 109, 101, 46, 116, 120, 116]

/-- Its first slot fills cluster 2, the other one and the entry are in cluster 3. -/
theorem fillDirSlot_roundTrip_straddling :
    ∃ image second after,
      (fillDirSlot (fun _ _ => .done 3) fragmentedData lastRecord straddlingName).images
        (List.replicate 32 32) = [image, second] ∧
      getVfatname (fun block count =>
          (count, (fragmented.place 2048 512 second).load (block * 512) (count * 512)))
          fragmentedData ⟨Memory.blank, none⟩ 2 image 0 480 =
        some ⟨downcase straddlingName, image.store 480 (List.replicate 32 32), after⟩ := by
  have chars : ∀ c ∈ straddlingName, c ≠ 0 := by simp [straddlingName]
  have start : nextClust (fun _ _ => .done 3) fragmentedData lastRecord = lastRecord := by
    rw [nextClust, if_neg (by decide)]
  have chain (second : Memory) :
      ValidChain (fragmented.place 2048 512 second) fragmentedData [2, 3] := by
    refine ⟨.cons_cons ?_ (.singleton _), by decide, by simp only [Fsdata.HasEntry]; decide,
      by decide, by decide⟩
    rfl
  have trip (second : Memory) := @fillDirSlot_roundTrip _ (fragmented.place 2048 512 second)
    fragmentedData _ (fun _ _ => rfl) (by decide) 2 [3] (chain second) ⟨Memory.blank, none⟩
    (fun _ none => by cases none) (fun _ _ => .done 3) (fun _ _ => ⟨3, rfl⟩) lastRecord (by decide)
    (by decide) straddlingName (by decide) chars (by decide) (List.replicate 32 32) (by decide)
  rw [start] at trip
  obtain ⟨slot, others, -, -, filled⟩ :=
    fillDirSlot_slots (fun _ _ => .done 3) fragmentedData lastRecord chars (by decide)
  have reach := @writeSlots_reach (fun _ _ => .done 3) fragmentedData (fun _ _ => ⟨3, rfl⟩)
    lastRecord (slot :: others) (by
      rw [List.length_cons]
      unfold direntSize
      have place : lastRecord.dentptr = 480 := rfl
      have wide : fragmentedData.bytesperclust = 512 := rfl
      omega)
  rcases (trip Memory.blank).1 (by decide) with ⟨image, one⟩ | ⟨image, second, two⟩
  · rw [filled, DirTable.images] at one
    have lengths := congrArg List.length one
    simp only [List.length_append, List.length_map, List.length_singleton] at lengths
    omega
  · obtain ⟨after, -, read⟩ := (trip second).2.2 image second 3 [] two rfl (by
      intro i less
      have inside : i < 512 := less
      have start : fragmentedData.clusterSect 3 * fragmentedData.sectSize = 2048 := by decide
      rw [start, Memory.place, if_pos (by omega), Nat.add_sub_cancel_left])
    exact ⟨image, second, after, two, read⟩

end HrppBoot.Fat
