import HrppBoot.Fat.LongName

/-!
# Writing a long name

`fill_dir_slot` cuts a name into slots of thirteen characters, numbers them and marks the last one.
It writes them into the buffer of a directory, last part first, and puts the buffer on the disk
where a cluster is full. `str2slot` ends a name that does not fill its last slot with a NUL and
pads the rest of the slot. What a flush does with the disk and the table is a parameter.
-/

namespace HrppBoot.Fat

open ByteMemory

/-! ## Slots -/

/-- Where `name0_4` has its characters. -/
def name04 : List Nat := [1, 3, 5, 7, 9]

/-- Where `name5_10` has its characters. -/
def name510 : List Nat := [14, 16, 18, 20, 22, 24]

/-- Where `name11_12` has its characters. -/
def name1112 : List Nat := [28, 30]

/-- A loop of `str2slot`: the slot, the rest of the name, and the positions that are left if the
name ends. -/
def putChars (slot : Record) : List Nat → List UInt8 → Record × List UInt8 × Option (List Nat)
  | [], name => (slot, name, none)
  | i :: positions, [] => ((slot.set i 0).set (i + 1) 0, [], some positions)
  | i :: positions, c :: name => putChars (slot.set i c) positions name

/-- Not used characters are filled with 0xff 0xff. -/
def padUnused (slot : Record) (positions : List Nat) : Record :=
  positions.foldl (fun slot i => (slot.set i 0xff).set (i + 1) 0xff) slot

/-- `str2slot`: the slot, the rest of the name, and whether the name ends. -/
def str2slot (slot : Record) (name : List UInt8) : Record × List UInt8 × Bool :=
  match putChars slot name04 name with
  | (slot, name, some unused) => (padUnused slot (unused ++ (name510 ++ name1112)), name, true)
  | (slot, name, none) =>
    match putChars slot name510 name with
    | (slot, name, some unused) => (padUnused slot (unused ++ name1112), name, true)
    | (slot, name, none) =>
      match putChars slot name1112 name with
      | (slot, name, some unused) => (padUnused slot unused, name, true)
      | (slot, name, none) => (slot, name, name.isEmpty)

theorem putChars_append (slot : Record) (first second : List Nat) (name : List UInt8) :
    putChars slot (first ++ second) name =
      match putChars slot first name with
      | (slot, name, some unused) => (slot, name, some (unused ++ second))
      | (slot, name, none) => putChars slot second name := by
  induction first generalizing slot name with
  | nil => simp [putChars]
  | cons i first ih =>
    cases name with
    | nil => simp [putChars]
    | cons c name =>
      rw [List.cons_append, putChars, putChars]
      exact ih (slot.set i c) name

theorem str2slot_eq (slot : Record) (name : List UInt8) :
    str2slot slot name =
      match putChars slot Record.slotPositions name with
      | (slot, name, some unused) => (padUnused slot unused, name, true)
      | (slot, name, none) => (slot, name, name.isEmpty) := by
  have positions : Record.slotPositions = name04 ++ (name510 ++ name1112) := rfl
  rw [positions, putChars_append, str2slot]
  rcases putChars slot name04 name with ⟨slot, name, _ | unused⟩
  · dsimp only
    rw [putChars_append]
    rcases putChars slot name510 name with ⟨slot, name, _ | unused⟩
    · rfl
    · rfl
  · rfl

theorem byte_set (record : Record) (i j : Nat) (c : UInt8) :
    Record.byte (record.set i c) j = if i = j ∧ j < record.length then c else record.byte j := by
  unfold Record.byte
  rw [List.getD_eq_getElem?_getD, List.getElem?_set, List.getD_eq_getElem?_getD]
  by_cases same : i = j
  · subst same
    by_cases inside : i < record.length
    · simp [inside]
    · simp [inside]
  · simp [same]

/-- What a loop of `str2slot` leaves. -/
structure Put (slot : Record) (positions : List Nat) (name : List UInt8)
    (after : Record × List UInt8 × Option (List Nat)) : Prop where
  length : after.1.length = slot.length
  rest : after.2.1 = name.drop positions.length
  kept : ∀ j, (∀ i ∈ positions, j ≠ i ∧ j ≠ i + 1) → after.1.byte j = slot.byte j
  ended : name.length < positions.length →
    after.2.2 = some (positions.drop (name.length + 1)) ∧
      (positions.take (name.length + 1)).map after.1.byte = name ++ [0]
  full : positions.length ≤ name.length →
    after.2.2 = none ∧ positions.map after.1.byte = name.take positions.length

/-- The loop puts the characters at the positions. -/
theorem putChars_put {slot : Record} {positions : List Nat} (name : List UInt8)
    (spaced : positions.Pairwise fun i j => i + 1 < j)
    (inside : ∀ i ∈ positions, i + 1 < slot.length) :
    Put slot positions name (putChars slot positions name) := by
  induction positions generalizing slot name with
  | nil =>
    rw [putChars]
    exact ⟨rfl, rfl, fun _ _ => rfl, fun short => absurd short (by simp), fun _ => by simp⟩
  | cons i positions ih =>
    obtain ⟨first, others⟩ := List.pairwise_cons.mp spaced
    have own := inside i (List.mem_cons_self ..)
    cases name with
    | nil =>
      rw [putChars]
      refine ⟨by simp, by simp, ?_, ?_, fun long => absurd long (by simp)⟩
      · intro j elsewhere
        obtain ⟨notOwn, notNext⟩ := elsewhere i (List.mem_cons_self ..)
        dsimp only
        rw [byte_set, byte_set]
        rw [if_neg (fun both => notNext both.1.symm), if_neg (fun both => notOwn both.1.symm)]
      · intro _
        refine ⟨rfl, ?_⟩
        simp only [List.length_nil, Nat.zero_add, List.take_succ_cons, List.take_zero,
          List.map_cons, List.map_nil, List.nil_append, byte_set]
        rw [if_neg (by omega), if_pos ⟨trivial, by omega⟩]
    | cons c name =>
      have put := @ih (slot.set i c) name others (fun j member => by
        rw [List.length_set]
        exact inside j (List.mem_cons_of_mem _ member))
      have away : ∀ j ∈ positions, i ≠ j ∧ i ≠ j + 1 := by
        intro j member
        have apart := first j member
        omega
      have here : (putChars (slot.set i c) positions name).1.byte i = c := by
        rw [put.kept i away, byte_set, if_pos ⟨rfl, by omega⟩]
      rw [putChars]
      refine ⟨by simpa using put.length, by simpa using put.rest, ?_, ?_, ?_⟩
      · intro j elsewhere
        have notOwn := (elsewhere i (List.mem_cons_self ..)).1
        rw [put.kept j fun k member => elsewhere k (List.mem_cons_of_mem _ member),
          byte_set, if_neg (fun both => notOwn both.1.symm)]
      · intro short
        obtain ⟨left, chars⟩ := put.ended (by simpa using short)
        refine ⟨left, ?_⟩
        rw [List.length_cons, List.take_succ_cons, List.map_cons, here, chars,
          List.cons_append]
      · intro long
        obtain ⟨left, chars⟩ := put.full (by simpa using long)
        refine ⟨left, ?_⟩
        rw [List.length_cons, List.take_succ_cons, List.map_cons, here, chars]

theorem padUnused_kept {positions : List Nat} (slot : Record) {j : Nat}
    (elsewhere : ∀ i ∈ positions, j ≠ i ∧ j ≠ i + 1) :
    (padUnused slot positions).byte j = slot.byte j := by
  induction positions generalizing slot with
  | nil => rfl
  | cons i positions ih =>
    obtain ⟨notOwn, notNext⟩ := elsewhere i (List.mem_cons_self ..)
    have rest := ih ((slot.set i 0xff).set (i + 1) 0xff)
      fun k member => elsewhere k (List.mem_cons_of_mem _ member)
    rw [padUnused, List.foldl_cons, ← padUnused, rest, byte_set, byte_set,
      if_neg (fun both => notNext both.1.symm), if_neg (fun both => notOwn both.1.symm)]

theorem length_padUnused (slot : Record) (positions : List Nat) :
    (padUnused slot positions).length = slot.length := by
  induction positions generalizing slot with
  | nil => rfl
  | cons i positions ih =>
    rw [padUnused, List.foldl_cons, ← padUnused, ih]
    simp

theorem slotPositions_spaced : Record.slotPositions.Pairwise fun i j => i + 1 < j := by decide

section Slot

variable {slot : Record} (length : slot.length = direntSize) (name : List UInt8)
include length

/-- `str2slot` puts the first thirteen characters into the slot, and a NUL behind a name that ends
before. -/
theorem str2slot_spec :
    (str2slot slot name).1.length = direntSize ∧
      (str2slot slot name).2 = (name.drop 13, decide (name.length ≤ 13)) ∧
      ∃ padding, (str2slot slot name).1.slotChars =
        name.take 13 ++ if name.length < 13 then 0 :: padding else [] := by
  have inside : ∀ i ∈ Record.slotPositions, i + 1 < slot.length := by
    rw [length]
    decide
  have put := putChars_put name slotPositions_spaced inside
  rw [str2slot_eq]
  generalize putChars slot Record.slotPositions name = result at put ⊢
  obtain ⟨after, left, unused⟩ := result
  obtain ⟨same, rest, -, ended, full⟩ := put
  dsimp only at same rest ended full
  have count : Record.slotPositions.length = 13 := rfl
  rw [count] at rest ended full
  by_cases short : name.length < 13
  · obtain ⟨rfl, chars⟩ := ended short
    have none : name.drop 13 = [] := List.drop_eq_nil_iff.mpr short.le
    have split := List.take_append_drop (name.length + 1) Record.slotPositions
    have apart := slotPositions_spaced
    rw [← split, List.pairwise_append] at apart
    have kept : (Record.slotPositions.take (name.length + 1)).map
        (padUnused after (Record.slotPositions.drop (name.length + 1))).byte = name ++ [0] := by
      rw [← chars]
      apply List.map_congr_left
      intro j member
      apply padUnused_kept
      intro i behind
      have order := apart.2.2 j member i behind
      omega
    refine ⟨?_, ?_, ?_⟩
    · dsimp only
      rw [length_padUnused, same, length]
    · simp [rest, none, short.le]
    · refine ⟨(Record.slotPositions.drop (name.length + 1)).map
        (padUnused after (Record.slotPositions.drop (name.length + 1))).byte, ?_⟩
      dsimp only
      rw [if_pos short, List.take_of_length_le short.le, Record.slotChars]
      conv_lhs => rw [← split]
      rw [List.map_append, split, kept]
      simp
  · obtain ⟨rfl, chars⟩ := full (Nat.not_lt.mp short)
    refine ⟨same.trans length, ?_, [], ?_⟩
    · subst rest
      simp only [Prod.mk.injEq, true_and]
      rw [Bool.eq_iff_iff, List.isEmpty_iff, List.drop_eq_nil_iff]
      simp
    · rw [if_neg short, List.append_nil]
      exact chars

end Slot

/-! ## The slots of a name -/

def mkcksum (base ext : List UInt8) : UInt8 :=
  (base ++ ext).foldl (fun ret c => ((ret &&& 1) <<< 7 ||| (ret &&& 0xfe) >>> 1) + c) 0

/-- `id`, `attr` and `alias_checksum` of a slot. -/
def numberSlot (slot : Record) (counter checksum : UInt8) : Record :=
  ((slot.set 0 counter).set 11 attrVfat).set 13 checksum

/-- A slot of zeros. -/
def blankSlot : Record := List.replicate direntSize 0

/-- The first loop of `fill_dir_slot`: the slots, last part first. -/
def slotLoop (checksum counter : UInt8) (name : List UInt8) : List Record :=
  let filled := str2slot blankSlot name
  let slot := numberSlot filled.1 (counter + 1) checksum
  if _last : filled.2.2 then [slot]
  else slotLoop checksum (counter + 1) filled.2.1 ++ [slot]
termination_by name.length
decreasing_by
  have ends := (@str2slot_spec blankSlot rfl name).2.1
  simp only [filled, ends, List.length_drop] at *
  simp only [decide_eq_true_eq] at _last
  omega

/-- The last slot gets its mark. -/
def markLast : List Record → List Record
  | [] => []
  | slot :: rest => slot.set 0 (slot.byte 0 ||| lastLongEntryMask) :: rest

theorem slotChars_set (record : Record) {i : Nat} (c : UInt8)
    (elsewhere : i ∉ Record.slotPositions) :
    Record.slotChars (record.set i c) = record.slotChars := by
  apply List.map_congr_left
  intro j member
  rw [byte_set, if_neg]
  rintro ⟨rfl, -⟩
  exact elsewhere member

theorem byte_numberSlot {slot : Record} (length : slot.length = direntSize)
    (counter checksum : UInt8) : (numberSlot slot counter checksum).byte 0 = counter := by
  simp only [numberSlot, byte_set, List.length_set, length]
  simp [direntSize]

theorem slot2str_numberSlot {name : List UInt8} (chars : ∀ c ∈ name, c ≠ 0)
    (counter checksum : UInt8) :
    slot2str (numberSlot (str2slot blankSlot name).1 counter checksum) =
      (name.take 13, decide (name.length < 13)) := by
  obtain ⟨-, -, padding, written⟩ := @str2slot_spec blankSlot rfl name
  have same : (numberSlot (str2slot blankSlot name).1 counter checksum).slotChars =
      (str2slot blankSlot name).1.slotChars := by
    rw [numberSlot, slotChars_set _ _ (by decide), slotChars_set _ _ (by decide),
      slotChars_set _ _ (by decide)]
  have kept : ∀ c ∈ name.take 13, c ≠ 0 := fun c member => chars c (List.mem_of_mem_take member)
  have whole : (name.take 13).takeWhile (· ≠ 0) = name.take 13 := by
    rw [List.takeWhile_eq_self_iff]
    simpa using kept
  have none : (name.take 13).any (· = 0) = false := by
    rw [List.any_eq_false]
    simpa using kept
  rw [slot2str, same, written]
  by_cases short : name.length < 13
  · rw [if_pos short, List.takeWhile_append_of_pos (by simpa using kept), List.any_append, none]
    simp [short]
  · rw [if_neg short, List.append_nil, whole, none]
    simp [short]

/-- What the slots of a name are before the last one is marked. -/
structure SlotsOf (slots : List Record) (number : Nat) (name : List UInt8) : Prop where
  nonempty : slots ≠ []
  count : 13 * slots.length < name.length + 13 ∨ slots.length = 1
  size : ∀ slot ∈ slots, slot.length = direntSize
  countdown : number + slots.length ≤ 20 → Countdown slots number
  unmarked : number + slots.length ≤ 20 → ∀ slot ∈ slots, slot.byte 0 &&& lastLongEntryMask = 0
  full : ∀ slot ∈ slots.tail, (slot2str slot).2 = false
  string : slotString slots = name

/-- The loop makes the slots of the name. -/
theorem slotLoop_slots (checksum : UInt8) (number : Nat) {name : List UInt8}
    (chars : ∀ c ∈ name, c ≠ 0) :
    SlotsOf (slotLoop checksum (UInt8.ofNat number) name) number name := by
  obtain ⟨length, ends, -⟩ := @str2slot_spec blankSlot rfl name
  have size : ∀ counter, (numberSlot (str2slot blankSlot name).1 counter checksum).length =
      direntSize := by
    intro counter
    simp [numberSlot, length]
  have read := slot2str_numberSlot chars (UInt8.ofNat number + 1) checksum
  have next : UInt8.ofNat number + 1 = UInt8.ofNat (number + 1) := (UInt8.ofNat_add number 1).symm
  have id := byte_numberSlot length (UInt8.ofNat (number + 1)) checksum
  rw [slotLoop]
  simp only [ends, decide_eq_true_eq]
  rw [next] at read ⊢
  by_cases short : name.length ≤ 13
  · rw [dif_pos short]
    refine ⟨by simp, .inr rfl, by simpa using size _, ?_, ?_, by simp, ?_⟩
    · intro small
      refine ⟨?_, trivial⟩
      rw [Record.seq, id]
      simpa using (slotId_bits number (by simp at small; omega)).1
    · intro small
      rw [List.forall_mem_singleton, id]
      exact (slotId_bits number (by simp at small; omega)).2.2.1
    · simp only [slotString, List.reverse_singleton, List.flatMap_singleton, read]
      exact List.take_of_length_le short
  · rw [dif_neg short]
    have rest := @slotLoop_slots checksum (number + 1) (name.drop 13)
      fun c member => chars c (List.mem_of_mem_drop member)
    have whole : ¬name.length < 13 := by omega
    refine ⟨by simp, .inl ?_, ?_, ?_, ?_, ?_, ?_⟩
    · have count := rest.count
      rw [List.length_drop] at count
      rw [List.length_append, List.length_singleton]
      omega
    · intro slot member
      rcases List.mem_append.mp member with later | own
      · exact rest.size slot later
      · rw [List.mem_singleton.mp own]
        exact size _
    · intro small
      rw [List.length_append, List.length_singleton] at small
      refine (countdown_append ..).mpr ⟨?_, ?_, trivial⟩
      · rw [List.length_singleton, Nat.add_comm 1]
        exact rest.countdown (by omega)
      · rw [Record.seq, id]
        simpa using (slotId_bits number (by omega)).1
    · intro small slot member
      rw [List.length_append, List.length_singleton] at small
      rcases List.mem_append.mp member with later | own
      · exact rest.unmarked (by omega) slot later
      · rw [List.mem_singleton.mp own, id]
        exact (slotId_bits number (by omega)).2.2.1
    · intro slot member
      rw [List.tail_append_of_ne_nil rest.nonempty] at member
      rcases List.mem_append.mp member with later | own
      · exact rest.full slot later
      · rw [List.mem_singleton.mp own, read]
        simpa using whole
    · have string := rest.string
      unfold slotString at string ⊢
      rw [List.reverse_append, List.reverse_singleton, List.singleton_append, List.flatMap_cons,
        string, read]
      exact List.take_append_drop 13 name
termination_by name.length
decreasing_by
  rw [List.length_drop]
  omega

theorem seq_marked (id : UInt8) :
    (id ||| lastLongEntryMask) &&& 0xbf = id &&& 0xbf ∧
      (id ||| lastLongEntryMask) &&& lastLongEntryMask ≠ 0 := by
  have all : ∀ n < 256, (UInt8.ofNat n ||| lastLongEntryMask) &&& 0xbf = UInt8.ofNat n &&& 0xbf ∧
      (UInt8.ofNat n ||| lastLongEntryMask) &&& lastLongEntryMask ≠ 0 := by
    decide +kernel
  simpa using all id.toNat id.toNat_lt

/-- The slots of a name of at most 117 characters. -/
theorem markLast_slots (checksum : UInt8) {name : List UInt8} (chars : ∀ c ∈ name, c ≠ 0)
    (short : name.length ≤ 117) :
    ∃ slot rest, markLast (slotLoop checksum 0 name) = slot :: rest ∧
      SlotRun slot rest name ∧ ∀ other ∈ slot :: rest, other.length = direntSize := by
  have slots := slotLoop_slots checksum 0 chars
  rw [show UInt8.ofNat 0 = 0 from rfl] at slots
  cases made : slotLoop checksum 0 name with
  | nil => exact absurd made slots.nonempty
  | cons slot rest =>
    rw [made] at slots
    have count : (slot :: rest).length ≤ vfatMaxseq := by
      have few := slots.count
      unfold vfatMaxseq
      omega
    have small : 0 + (slot :: rest).length ≤ 20 := by
      unfold vfatMaxseq at count
      omega
    have id : Record.byte (slot.set 0 (slot.byte 0 ||| lastLongEntryMask)) 0 =
        slot.byte 0 ||| lastLongEntryMask := by
      rw [byte_set, if_pos ⟨rfl, by simp [slots.size slot (by simp), direntSize]⟩]
    have same : slot2str (slot.set 0 (slot.byte 0 ||| lastLongEntryMask)) = slot2str slot := by
      rw [slot2str, slot2str, slotChars_set _ _ (by decide)]
    refine ⟨_, rest, rfl, ⟨⟨by simpa using count, ?_, ?_, ?_⟩, slots.full, ?_⟩, ?_⟩
    · have countdown := slots.countdown small
      refine ⟨?_, countdown.2⟩
      rw [Record.seq, id, (seq_marked _).1]
      exact countdown.1
    · rw [id]
      exact (seq_marked _).2
    · intro other member
      exact slots.unmarked small other (List.mem_cons_of_mem _ member)
    · have string := slots.string
      simp only [slotString, List.reverse_cons, List.flatMap_append, List.flatMap_singleton] at *
      rw [same, string]
    · intro other member
      rcases List.mem_cons.mp member with rfl | later
      · simpa using slots.size slot (by simp)
      · exact slots.size other (List.mem_cons_of_mem _ later)

/-! ## Writing the slots -/

/-- What happens when the buffer of a directory is flushed. -/
inductive Flush where
  /-- `set_cluster` fails. -/
  | unwritten
  /-- The table of the volume cannot be flushed after the new cluster was entered. -/
  | unlinked (dirNewclust : Nat)
  | done (dirNewclust : Nat)
  deriving DecidableEq, Repr

/-- The variables of the code that writes directories. -/
structure DirTable where
  /-- `get_dentfromdir_block` -/
  block : Memory
  dentptr : Nat
  dirCurclust : Nat
  flushed : List (Nat × Memory)

section Writer

variable (flush : Nat → Memory → Flush) (mydata : Fsdata)

def isNextClust (dentptr : Nat) : Bool := mydata.bytesperclust ≤ dentptr

def flushDirTable (table : DirTable) : DirTable :=
  let flushed := table.flushed ++ [(table.dirCurclust, table.block)]
  match flush table.dirCurclust table.block with
  | .unwritten => table
  | .unlinked dirNewclust => { table with dirCurclust := dirNewclust, flushed := flushed }
  | .done dirNewclust => ⟨table.block.fill 0 mydata.bytesperclust 0, 0, dirNewclust, flushed⟩

/-- The check before each slot and behind the last. -/
def nextClust (table : DirTable) : DirTable :=
  if isNextClust mydata table.dentptr then flushDirTable flush mydata table else table

/-- A slot goes to `*dentptr`. -/
def putSlot (table : DirTable) (slot : Record) : DirTable :=
  { table with
    block := table.block.store table.dentptr slot
    dentptr := table.dentptr + direntSize }

/-- The second loop of `fill_dir_slot`. -/
def writeSlots (table : DirTable) : List Record → DirTable
  | [] => table
  | slot :: slots => writeSlots (putSlot (nextClust flush mydata table) slot) slots

def fillDirSlot (table : DirTable) (lName : List UInt8) : DirTable :=
  let dent : Record := table.block.load table.dentptr direntSize
  let slots := markLast (slotLoop (mkcksum dent.base dent.ext) 0 lName)
  let counter := UInt8.ofNat slots.length
  nextClust flush mydata (writeSlots flush mydata table (slots.take counter.toNat))

/-- The buffers of a directory once the entry behind the slots is written, too. -/
def DirTable.images (table : DirTable) (dent : Record) : List Memory :=
  table.flushed.map Prod.snd ++ [table.block.store table.dentptr dent]

end Writer

section Write

variable (flush : Nat → Memory → Flush) (mydata : Fsdata)

theorem writeSlots_append (table : DirTable) (first second : List Record) :
    writeSlots flush mydata table (first ++ second) =
      writeSlots flush mydata (writeSlots flush mydata table first) second := by
  induction first generalizing table with
  | nil => rfl
  | cons slot first ih => exact ih _

/-- Slots that begin inside the cluster are written without a flush. -/
theorem writeSlots_inside (table : DirTable) {slots : List Record}
    (size : ∀ slot ∈ slots, slot.length = direntSize)
    (inside : ∀ k < slots.length, table.dentptr + direntSize * k < mydata.bytesperclust) :
    ∃ block, writeSlots flush mydata table slots =
        { table with block := block, dentptr := table.dentptr + direntSize * slots.length } ∧
      Shows block table.dentptr slots ∧ ∀ a < table.dentptr, block a = table.block a := by
  induction slots generalizing table with
  | nil => exact ⟨table.block, rfl, trivial, fun _ _ => rfl⟩
  | cons slot slots ih =>
    have own := size slot (List.mem_cons_self ..)
    have here := inside 0 (by simp)
    have stays : nextClust flush mydata table = table := by
      rw [nextClust, if_neg]
      simpa [isNextClust] using here
    obtain ⟨block, wrote, shows, kept⟩ := ih (putSlot table slot)
      (fun other member => size other (List.mem_cons_of_mem _ member)) (fun k less => by
        have next := inside (k + 1) (by simpa using less)
        unfold direntSize at next
        simp only [putSlot, direntSize]
        omega)
    dsimp only [putSlot] at shows kept
    refine ⟨block, ?_, ⟨?_, shows⟩, ?_⟩
    · rw [writeSlots, stays, wrote]
      simp only [putSlot, List.length_cons, direntSize, DirTable.mk.injEq, true_and, and_true]
      omega
    · have stored := (Memory.store_holds table.block table.dentptr slot).load
      rw [own] at stored
      rw [← stored]
      apply Memory.load_eq_load
      intro i less
      exact kept _ (by omega)
    · intro a before
      rw [kept a (by omega), Memory.store_outside _ _ _ _ (by omega)]

section Succeeds

variable {flush} (succeeds : ∀ clust block, ∃ dirNewclust, flush clust block = .done dirNewclust)
include succeeds

theorem flushDirTable_done (table : DirTable) :
    ∃ block dirNewclust, flushDirTable flush mydata table =
      ⟨block, 0, dirNewclust, table.flushed ++ [(table.dirCurclust, table.block)]⟩ := by
  obtain ⟨dirNewclust, done⟩ := succeeds table.dirCurclust table.block
  exact ⟨table.block.fill 0 mydata.bytesperclust 0, dirNewclust, by simp only [flushDirTable, done]⟩

theorem nextClust_flushed (table : DirTable) :
    table.flushed.length ≤ (nextClust flush mydata table).flushed.length := by
  rw [nextClust]
  split
  · obtain ⟨block, dirNewclust, done⟩ := flushDirTable_done mydata succeeds table
    simp [done]
  · exact Nat.le_refl _

theorem writeSlots_flushed (table : DirTable) (slots : List Record) :
    table.flushed.length ≤ (writeSlots flush mydata table slots).flushed.length := by
  induction slots generalizing table with
  | nil => exact Nat.le_refl _
  | cons slot slots ih =>
    exact (nextClust_flushed mydata succeeds table).trans (ih (putSlot _ slot))

theorem writeSlots_reach (table : DirTable) (slots : List Record)
    (reach : mydata.bytesperclust ≤ table.dentptr + direntSize * slots.length) :
    table.flushed.length <
      (nextClust flush mydata (writeSlots flush mydata table slots)).flushed.length := by
  have flushes (table : DirTable) (ends : isNextClust mydata table.dentptr = true) :
      table.flushed.length < (nextClust flush mydata table).flushed.length := by
    obtain ⟨block, dirNewclust, done⟩ := flushDirTable_done mydata succeeds table
    rw [nextClust, if_pos ends, done]
    simp
  induction slots generalizing table with
  | nil => exact flushes table (by simpa [isNextClust] using reach)
  | cons slot slots ih =>
    rw [writeSlots]
    by_cases ends : isNextClust mydata table.dentptr = true
    · have more := flushes table ends
      have kept := writeSlots_flushed mydata succeeds
        (putSlot (nextClust flush mydata table) slot) slots
      have last := nextClust_flushed mydata succeeds
        (writeSlots flush mydata (putSlot (nextClust flush mydata table) slot) slots)
      dsimp only [putSlot] at kept last ⊢
      omega
    · have stays : nextClust flush mydata table = table := by rw [nextClust, if_neg ends]
      rw [stays]
      apply ih (putSlot table slot)
      rw [List.length_cons] at reach
      simp only [putSlot, direntSize] at reach ⊢
      omega

theorem nextClust_writeSlots [mydata.Clustered] (table : DirTable) (slots : List Record) :
    nextClust flush mydata (writeSlots flush mydata table slots) =
      nextClust flush mydata (writeSlots flush mydata (nextClust flush mydata table) slots) := by
  have again : nextClust flush mydata (nextClust flush mydata table) =
      nextClust flush mydata table := by
    by_cases ends : isNextClust mydata table.dentptr = true
    · obtain ⟨block, dirNewclust, done⟩ := flushDirTable_done mydata succeeds table
      have positive : 0 < mydata.bytesperclust := mydata.nonempty
      have moved : nextClust flush mydata table = flushDirTable flush mydata table := by
        rw [nextClust, if_pos ends]
      rw [moved, done, nextClust, if_neg]
      simpa [isNextClust] using positive.ne'
    · have stays : nextClust flush mydata table = table := by rw [nextClust, if_neg ends]
      rw [stays, stays]
  cases slots with
  | nil => rw [writeSlots, writeSlots, again]
  | cons slot slots => rw [writeSlots, writeSlots, again]

end Succeeds

end Write

end HrppBoot.Fat
