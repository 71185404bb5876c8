import HrppBoot.Disk.Dos

/-!
# Numbers of partitions

On a disk whose boot records form a finite chain, the search finds the partition with a number and
the listing shows the same partitions under the same numbers, with the extended entries of the
master boot record besides.
-/

namespace HrppBoot.Disk

open ByteMemory

/-! ## Numbered lists -/

section Numbered

variable {α : Type}

/-- The element of a list whose elements are numbered from `first` on. -/
def nth (list : List α) (first which : Int) : Option α :=
  if first ≤ which then list[(which - first).toNat]? else none

/-- The elements with their numbers from `first` on. -/
def number (first : Int) : List α → List (Int × α)
  | [] => []
  | a :: rest => (first, a) :: number (first + 1) rest

@[simp] theorem nth_nil (first which : Int) : nth ([] : List α) first which = none := by
  simp [nth]

theorem nth_cons (a : α) (rest : List α) (first which : Int) :
    nth (a :: rest) first which = if first = which then some a else nth rest (first + 1) which := by
  unfold nth
  by_cases same : first = which
  · simp [same]
  · by_cases behind : first ≤ which
    · have step : (which - first).toNat = (which - (first + 1)).toNat + 1 := by omega
      rw [if_neg same, if_pos behind, if_pos (by omega), step, List.getElem?_cons_succ]
    · rw [if_neg same, if_neg behind, if_neg (by omega)]

theorem nth_append (list more : List α) (first which : Int) :
    nth (list ++ more) first which =
      (nth list first which).or (nth more (first + list.length) which) := by
  induction list generalizing first with
  | nil => simp
  | cons a rest ih =>
    rw [List.cons_append, nth_cons, nth_cons, ih]
    by_cases same : first = which
    · rw [if_pos same, if_pos same, Option.some_or]
    · have moved : first + 1 + (rest.length : Int) = first + ((a :: rest).length : Int) := by
        rw [List.length_cons]
        omega
      rw [if_neg same, if_neg same, moved]

theorem first_le_of_nth {list : List α} {first which : Int} {a : α}
    (found : nth list first which = some a) : first ≤ which := by
  unfold nth at found
  split at found
  · assumption
  · cases found

theorem mem_number (list : List α) (first n : Int) (a : α) :
    (n, a) ∈ number first list ↔ nth list first n = some a := by
  induction list generalizing first with
  | nil => simp [number]
  | cons b rest ih =>
    rw [number, List.mem_cons, nth_cons, ih]
    by_cases same : first = n
    · subst same
      have gone : ¬nth rest (first + 1) first = some a := by
        intro found
        have behind := first_le_of_nth found
        omega
      simp only [gone, or_false, Prod.mk.injEq, if_true, Option.some.injEq, true_and]
      exact eq_comm
    · have other : ¬(n, a) = (first, b) := fun equal => same (congrArg Prod.fst equal).symm
      simp only [if_neg same, other, false_or]

theorem number_append (list more : List α) (first : Int) :
    number first (list ++ more) = number first list ++ number (first + list.length) more := by
  induction list generalizing first with
  | nil => simp [number]
  | cons a rest ih =>
    have moved : first + 1 + (rest.length : Int) = first + ((a :: rest).length : Int) := by
      rw [List.length_cons]
      omega
    rw [List.cons_append, number, number, ih, moved, List.cons_append]

theorem number_sorted (list : List α) (first : Int) :
    (number first list).Pairwise (·.1 < ·.1) := by
  induction list generalizing first with
  | nil => exact List.Pairwise.nil
  | cons a rest ih =>
    refine List.pairwise_cons.mpr ⟨?_, ih (first + 1)⟩
    intro later member
    have behind := first_le_of_nth ((mem_number rest (first + 1) later.1 later.2).mp member)
    exact lt_of_lt_of_le (Int.lt_succ first) behind

end Numbered

/-! ## Chains of tables -/

/-- A table as it should be: the signature, boot indicators that are set or not, and no more than
one extended entry. -/
structure GoodTable (buffer : Memory) : Prop where
  magic : hasMagic buffer = true
  boots : ∀ p ∈ dosTable buffer, p.bootInd = 0 ∨ p.bootInd = 0x80
  one : ((dosTable buffer).filter fun p => isExtended p.sysInd).length ≤ 1

/-- A finite chain of extended boot records from a sector on, each with its table. Their links are
relative to `base`. -/
inductive EbrChain (d : DosDev) (base : UInt32) :
    UInt32 → List (UInt32 × List DosPartition) → Prop where
  | last {sector : UInt32} {buffer : Memory} (apart : sector ≠ 0)
      (read : d.blockRead sector = some buffer) (good : GoodTable buffer)
      (ends : ((dosTable buffer).filter fun p => isExtended p.sysInd) = []) :
      EbrChain d base sector [(sector, dosTable buffer)]
  | link {sector : UInt32} {buffer : Memory} {p : DosPartition}
      {rest : List (UInt32 × List DosPartition)} (apart : sector ≠ 0)
      (read : d.blockRead sector = some buffer) (good : GoodTable buffer)
      (next : ((dosTable buffer).filter fun p => isExtended p.sysInd) = [p])
      (chain : EbrChain d base (p.start4 + base) rest) :
      EbrChain d base sector ((sector, dosTable buffer) :: rest)

/-- A disk with a master boot record and a finite chain of extended boot records. -/
inductive DosChain (d : DosDev) : List DosPartition → List (UInt32 × List DosPartition) → Prop where
  | flat {buffer : Memory} (read : d.blockRead 0 = some buffer) (good : GoodTable buffer)
      (ends : ((dosTable buffer).filter fun p => isExtended p.sysInd) = []) :
      DosChain d (dosTable buffer) []
  | extended {buffer : Memory} {p : DosPartition} {ebrs : List (UInt32 × List DosPartition)}
      (read : d.blockRead 0 = some buffer) (good : GoodTable buffer)
      (next : ((dosTable buffer).filter fun p => isExtended p.sysInd) = [p])
      (chain : EbrChain d p.start4 p.start4 ebrs) :
      DosChain d (dosTable buffer) ebrs

/-- The logical partitions in the order of the chain, each with the sector of its table. -/
def logicals (ebrs : List (UInt32 × List DosPartition)) : List (UInt32 × DosPartition) :=
  ebrs.flatMap fun record => (record.2.filter DosPartition.used).map fun p => (record.1, p)

/-- The partition with a number and the sector its start is relative to: a slot of the master boot
record, or a logical partition. -/
def partitionAt (mbr : List DosPartition) (ebrs : List (UInt32 × List DosPartition)) (n : Int) :
    Option (UInt32 × DosPartition) :=
  if 1 ≤ n ∧ n ≤ 4 then ((mbr[(n - 1).toNat]?).filter DosPartition.used).map fun p => (0, p)
  else if 5 ≤ n then (logicals ebrs)[(n - 5).toNat]?
  else none

/-! ## One table -/

section Slots

variable {ext : Int32} {table : List DosPartition}

theorem bootInd_masked {p : DosPartition} (boot : p.bootInd = 0 ∨ p.bootInd = 0x80) :
    p.bootInd &&& 0x7f = 0 := by
  rcases boot with zero | active
  · rw [zero]
    decide
  · rw [active]
    decide

theorem search_test {p : DosPartition} (boot : p.bootInd = 0 ∨ p.bootInd = 0x80)
    (partNum which : Int) :
    (p.bootInd &&& 0x7f = 0 ∧ p.sysInd ≠ 0 ∧ partNum = which ∧ isExtended p.sysInd = false) ↔
      p.used = true ∧ partNum = which := by
  simp only [bootInd_masked boot, true_and, DosPartition.used, Bool.and_eq_true, bne_iff_ne,
    Bool.not_eq_true']
  tauto

theorem searchSlots_extended (far : ext ≠ 0) (boots : ∀ p ∈ table, p.bootInd = 0 ∨ p.bootInd = 0x80)
    (partNum which : Int) :
    searchSlots ext which partNum table =
      match nth (table.filter DosPartition.used) partNum which with
      | some p => .inl p
      | none => .inr (partNum + (table.filter DosPartition.used).length) := by
  induction table generalizing partNum with
  | nil => simp [searchSlots]
  | cons p rest ih =>
    have later := fun partNum => ih (fun q member => boots q (List.mem_cons_of_mem p member)) partNum
    have test := search_test (boots p List.mem_cons_self) partNum which
    cases used : p.used with
    | true =>
      have count : countSlot ext p partNum = partNum + 1 := if_pos (Or.inr used)
      rw [List.filter_cons_of_pos used, nth_cons, searchSlots, count, later]
      by_cases same : partNum = which
      · rw [if_pos (test.mpr ⟨used, same⟩), if_pos same]
      · have moved : partNum + 1 + ((rest.filter DosPartition.used).length : Int) =
            partNum + ((p :: rest.filter DosPartition.used).length : Int) := by
          rw [List.length_cons]
          omega
        rw [if_neg (fun passed => same (test.mp passed).2), if_neg same, moved]
    | false =>
      have count : countSlot ext p partNum = partNum := if_neg (by simp [far, used])
      rw [List.filter_cons_of_neg (by simp [used]), searchSlots, count, later,
        if_neg (fun passed => absurd (test.mp passed).1 (by simp [used]))]

theorem searchSlots_mbr (boots : ∀ p ∈ table, p.bootInd = 0 ∨ p.bootInd = 0x80)
    (partNum which : Int) :
    searchSlots 0 which partNum table =
      match (nth table partNum which).filter DosPartition.used with
      | some p => .inl p
      | none => .inr (partNum + table.length) := by
  induction table generalizing partNum with
  | nil => simp [searchSlots]
  | cons p rest ih =>
    have later := ih (fun q member => boots q (List.mem_cons_of_mem p member)) (partNum + 1)
    have test := search_test (boots p List.mem_cons_self) partNum which
    have count : countSlot 0 p partNum = partNum + 1 := if_pos (Or.inl rfl)
    have moved : partNum + 1 + (rest.length : Int) = partNum + ((p :: rest).length : Int) := by
      rw [List.length_cons]
      omega
    rw [nth_cons, searchSlots, count, later, moved]
    by_cases same : partNum = which
    · cases used : p.used with
      | true => rw [if_pos (test.mpr ⟨used, same⟩), if_pos same, Option.filter_some_pos used]
      | false =>
        have gone : nth rest (partNum + 1) which = none := if_neg (by omega)
        rw [if_neg (fun passed => absurd (test.mp passed).1 (by simp [used])), if_pos same, gone,
          Option.filter_some_neg (by simp [used])]
        rfl
    · rw [if_neg (fun passed => same (test.mp passed).2), if_neg same]

theorem printSlots_extended (far : ext ≠ 0) (disksig : UInt32) (partNum : Int) :
    printSlots ext disksig partNum table =
      ((number partNum (table.filter DosPartition.used)).map
        (fun entry => printOnePart entry.2 ext entry.1 disksig),
        partNum + (table.filter DosPartition.used).length) := by
  induction table generalizing partNum with
  | nil => simp [printSlots, number]
  | cons p rest ih =>
    have shown : (p.sysInd ≠ 0 ∧ (ext = 0 ∨ isExtended p.sysInd = false)) ↔ p.used = true := by
      simp [DosPartition.used, far]
    cases used : p.used with
    | true =>
      have count : countSlot ext p partNum = partNum + 1 := if_pos (Or.inr used)
      simp only [printSlots, count, ih, List.filter_cons_of_pos used, number, List.map_cons,
        List.length_cons, if_pos (shown.mpr used), Prod.mk.injEq, true_and]
      omega
    | false =>
      have count : countSlot ext p partNum = partNum := if_neg (by simp [far, used])
      have hidden : ¬(p.sysInd ≠ 0 ∧ (ext = 0 ∨ isExtended p.sysInd = false)) := by
        rw [shown, used]
        simp
      rw [List.filter_cons_of_neg (by simp [used])]
      simp only [printSlots, count, ih, if_neg hidden]

theorem printSlots_mbr (disksig : UInt32) (partNum : Int) :
    printSlots 0 disksig partNum table =
      (((number partNum table).filter fun entry => entry.2.sysInd != 0).map
        (fun entry => printOnePart entry.2 0 entry.1 disksig), partNum + table.length) := by
  induction table generalizing partNum with
  | nil => simp [printSlots, number]
  | cons p rest ih =>
    have count : countSlot 0 p partNum = partNum + 1 := if_pos (Or.inl rfl)
    by_cases empty : p.sysInd = 0
    · simp [printSlots, count, ih, number, empty]
      omega
    · simp [printSlots, count, ih, number, empty]
      omega

end Slots

theorem GoodTable.blockType {buffer : Memory} (good : GoodTable buffer) :
    testBlockType buffer = .mbr := by
  have first : dosSlot buffer 0 ∈ dosTable buffer := by simp [dosTable, List.range_succ]
  have passes : ¬((dosSlot buffer 0).bootInd ≠ 0 ∧ (dosSlot buffer 0).bootInd ≠ 0x80) := by
    rcases good.boots _ first with zero | active
    · simp [zero]
    · simp [active]
  rw [testBlockType, if_pos good.magic]
  simp only [testSlots, if_neg passes]

/-! ## Whole chains -/

section Walks

variable {d : DosDev} {base sector : UInt32} {ebrs : List (UInt32 × List DosPartition)}

theorem toInt32_ne_zero {sector : UInt32} (apart : sector ≠ 0) : sector.toInt32 ≠ 0 := by
  intro zero
  apply apart
  rw [← UInt32.toUInt32_toInt32 sector, zero]
  rfl

theorem logicals_cons (sector : UInt32) (table : List DosPartition)
    (rest : List (UInt32 × List DosPartition)) :
    logicals ((sector, table) :: rest) =
      ((table.filter DosPartition.used).map fun p => (sector, p)) ++ logicals rest := rfl

theorem nth_map {α β : Type} (f : α → β) (list : List α) (first which : Int) :
    nth (list.map f) first which = (nth list first which).map f := by
  unfold nth
  split <;> simp

theorem number_map {α β : Type} (f : α → β) (list : List α) (first : Int) :
    number first (list.map f) = (number first list).map fun entry => (entry.1, f entry.2) := by
  induction list generalizing first with
  | nil => rfl
  | cons a rest ih => simp [number, ih]

theorem followSector_eq (p : DosPartition) (base : UInt32) :
    followSector p base.toInt32 = (p.start4 + base).toInt32 := rfl

theorem find_of_filter {table : List DosPartition} {p : DosPartition}
    (only : (table.filter fun p => isExtended p.sysInd) = [p]) :
    (table.find? fun p => isExtended p.sysInd) = some p := by
  rw [← List.head?_filter, only, List.head?_cons]

theorem find_of_filter_nil {table : List DosPartition}
    (none : (table.filter fun p => isExtended p.sysInd) = []) :
    (table.find? fun p => isExtended p.sysInd) = Option.none := by
  rw [← List.head?_filter, none, List.head?_nil]

variable {tables : Nat} {mbr : List DosPartition}

theorem get_of_ebrChain (chain : EbrChain d base sector ebrs) (which : Int) (info : DosInfo)
    (enough : ebrs.length ≤ tables) (partNum : Int) :
    getPartitionInfoExtended d which info tables sector.toInt32 base.toInt32 partNum =
      some ((nth (logicals ebrs) partNum which).map fun found =>
        dosInfo d found.1.toInt32 which found.2) := by
  induction chain generalizing tables partNum with
  | @last sector buffer apart read good ends =>
    obtain ⟨tables, rfl⟩ : ∃ k, tables = k + 1 := ⟨tables - 1, by simp at enough; omega⟩
    have far := toInt32_ne_zero apart
    have ordinary : ¬testBlockType buffer = .pbr := by
      rw [good.blockType]
      decide
    simp only [getPartitionInfoExtended, UInt32.toUInt32_toInt32, read, good.magic, if_true,
      searchSlots_extended far good.boots, logicals_cons, nth_append, nth_map]
    cases nth ((dosTable buffer).filter DosPartition.used) partNum which with
    | some p => rfl
    | none =>
      simp only [find_of_filter_nil ends, if_neg ordinary]
      simp [logicals]
  | @link sector buffer p rest apart read good next chain ih =>
    obtain ⟨tables, rfl⟩ : ∃ k, tables = k + 1 := ⟨tables - 1, by simp at enough; omega⟩
    have far := toInt32_ne_zero apart
    have later := fun partNum => @ih tables (by simpa using enough) partNum
    simp only [getPartitionInfoExtended, UInt32.toUInt32_toInt32, read, good.magic, if_true,
      searchSlots_extended far good.boots, logicals_cons, nth_append, nth_map]
    cases nth ((dosTable buffer).filter DosPartition.used) partNum which with
    | some p => rfl
    | none =>
      simp only [find_of_filter next, if_neg far, followSector_eq, later, Option.map_none,
        Option.none_or, List.length_map]

theorem print_of_ebrChain (chain : EbrChain d base sector ebrs) (disksig : UInt32)
    (enough : ebrs.length ≤ tables) (partNum : Int) :
    printPartitionExtended d tables sector.toInt32 base.toInt32 partNum disksig =
      some ((number partNum (logicals ebrs)).map fun entry =>
        printOnePart entry.2.2 entry.2.1.toInt32 entry.1 disksig) := by
  induction chain generalizing tables partNum with
  | @last sector buffer apart read good ends =>
    obtain ⟨tables, rfl⟩ : ∃ k, tables = k + 1 := ⟨tables - 1, by simp at enough; omega⟩
    have far := toInt32_ne_zero apart
    simp only [printPartitionExtended, UInt32.toUInt32_toInt32, read, good.blockType, ne_eq,
      not_true_eq_false, if_false, if_neg far, printSlots_extended far, ends, List.map_nil,
      joinLines, Option.map_some, List.append_nil, logicals_cons, number_append, number_map,
      List.map_append, List.map_map]
    simp [logicals, number, Function.comp_def]
  | @link sector buffer p rest apart read good next chain ih =>
    obtain ⟨tables, rfl⟩ : ∃ k, tables = k + 1 := ⟨tables - 1, by simp at enough; omega⟩
    have far := toInt32_ne_zero apart
    have later := fun partNum => @ih tables (by simpa using enough) partNum
    simp only [printPartitionExtended, UInt32.toUInt32_toInt32, read, good.blockType, ne_eq,
      not_true_eq_false, if_false, if_neg far, printSlots_extended far, next, List.map_cons,
      List.map_nil, joinLines, followSector_eq, later, Option.map_some, Option.bind_some,
      List.append_nil, logicals_cons, number_append, number_map, List.map_append, List.map_map,
      List.length_map]
    simp [Function.comp_def]

theorem mbr_sector : Int32.toUInt32 0 = 0 := rfl

@[simp] theorem length_dosTable (buffer : Memory) : (dosTable buffer).length = 4 := rfl

theorem partitionAt_eq (slots : mbr.length = 4) (ebrs : List (UInt32 × List DosPartition)) (n : Int)
    :
    partitionAt mbr ebrs n =
      (((nth mbr 1 n).filter DosPartition.used).map fun p => (0, p)).or (nth (logicals ebrs) 5 n) := by
  unfold partitionAt nth
  by_cases low : 1 ≤ n
  · by_cases high : n ≤ 4
    · rw [if_pos ⟨low, high⟩, if_pos low, if_neg (by omega), Option.or_none]
    · have out : mbr[(n - 1).toNat]? = none := List.getElem?_eq_none (by omega)
      rw [if_neg (by omega), if_pos (by omega), if_pos low, out]
      rfl
  · rw [if_neg (by omega), if_neg (by omega), if_neg low]
    rfl

theorem get_of_dosChain (chain : DosChain d mbr ebrs) (n : Int) (info : DosInfo)
    (enough : ebrs.length + 1 ≤ tables) :
    getPartitionInfoDos d n info tables =
      some ((partitionAt mbr ebrs n).map fun found => dosInfo d found.1.toInt32 n found.2) := by
  obtain ⟨tables, rfl⟩ : ∃ k, tables = k + 1 := ⟨tables - 1, by omega⟩
  cases chain with
  | @flat buffer read good ends =>
    have ordinary : ¬testBlockType buffer = .pbr := by
      rw [good.blockType]
      decide
    rw [partitionAt_eq (length_dosTable buffer), getPartitionInfoDos]
    simp only [getPartitionInfoExtended, mbr_sector, read, good.magic, if_true,
      searchSlots_mbr good.boots]
    cases (nth (dosTable buffer) 1 n).filter DosPartition.used with
    | some p => rfl
    | none =>
      simp only [find_of_filter_nil ends, if_neg ordinary]
      simp [logicals]
  | @extended buffer p ebrs read good next chain =>
    rw [partitionAt_eq (length_dosTable buffer), getPartitionInfoDos]
    simp only [getPartitionInfoExtended, mbr_sector, read, good.magic, if_true,
      searchSlots_mbr good.boots]
    cases (nth (dosTable buffer) 1 n).filter DosPartition.used with
    | some p => rfl
    | none =>
      have start : followSector p 0 = p.start4.toInt32 := Int32.add_zero _
      simp only [find_of_filter next, start, Option.map_none, Option.none_or, length_dosTable]
      exact get_of_ebrChain chain n info (by omega) _

/-- The entries of the listing: the used slots of the master boot record, also extended ones, and
the logical partitions. -/
def listed (mbr : List DosPartition) (ebrs : List (UInt32 × List DosPartition)) :
    List (Int × UInt32 × DosPartition) :=
  (((number 1 mbr).filter fun entry => entry.2.sysInd != 0).map
    fun entry => (entry.1, 0, entry.2)) ++ number 5 (logicals ebrs)

theorem print_of_dosChain (chain : DosChain d mbr ebrs) (enough : ebrs.length + 1 ≤ tables) :
    ∃ disksig, printPartDos d tables = some ((listed mbr ebrs).map fun entry =>
      printOnePart entry.2.2 entry.2.1.toInt32 entry.1 disksig) := by
  obtain ⟨tables, rfl⟩ : ∃ k, tables = k + 1 := ⟨tables - 1, by omega⟩
  cases chain with
  | @flat buffer read good ends =>
    refine ⟨buffer.word32 0x1b8, ?_⟩
    simp only [printPartDos, printPartitionExtended, mbr_sector, read, good.blockType, ne_eq,
      not_true_eq_false, if_false, if_true, printSlots_mbr, ends, List.map_nil, joinLines,
      Option.map_some, List.append_nil, listed, List.map_append, List.map_map]
    simp [logicals, number, Function.comp_def]
  | @extended buffer p ebrs read good next chain =>
    have start : followSector p 0 = p.start4.toInt32 := Int32.add_zero _
    have later := fun partNum => print_of_ebrChain chain (buffer.word32 0x1b8)
      (show ebrs.length ≤ tables by omega) partNum
    refine ⟨buffer.word32 0x1b8, ?_⟩
    simp only [printPartDos, printPartitionExtended, mbr_sector, read, good.blockType, ne_eq,
      not_true_eq_false, if_false, if_true, printSlots_mbr, next, List.map_cons, List.map_nil,
      joinLines, start, later, Option.map_some, Option.bind_some, List.append_nil, listed,
      List.map_append, List.map_map]
    simp [Function.comp_def]

/-- What is listed: the partitions that are found, and the extended slots. -/
theorem mem_listed (slots : mbr.length = 4) (ebrs : List (UInt32 × List DosPartition)) (n : Int)
    (sector : UInt32) (p : DosPartition) :
    (n, sector, p) ∈ listed mbr ebrs ↔ partitionAt mbr ebrs n = some (sector, p) ∨
      (1 ≤ n ∧ n ≤ 4 ∧ sector = 0 ∧ mbr[(n - 1).toNat]? = some p ∧ isExtended p.sysInd = true) := by
  have slot : (n, sector, p) ∈ ((number 1 mbr).filter fun entry => entry.2.sysInd != 0).map
      (fun entry => (entry.1, (0 : UInt32), entry.2)) ↔
      nth mbr 1 n = some p ∧ p.sysInd ≠ 0 ∧ sector = 0 := by
    simp only [List.mem_map, List.mem_filter, Prod.exists, mem_number, Prod.mk.injEq, bne_iff_ne]
    constructor
    · rintro ⟨m, q, ⟨found, used⟩, rfl, rfl, rfl⟩
      exact ⟨found, used, rfl⟩
    · rintro ⟨found, used, rfl⟩
      exact ⟨n, p, ⟨found, used⟩, rfl, rfl, rfl⟩
  rw [listed, List.mem_append, slot, mem_number, partitionAt_eq slots]
  by_cases inside : 1 ≤ n ∧ n ≤ 4
  · have later : nth (logicals ebrs) 5 n = none := if_neg (by omega)
    have first : nth mbr 1 n = mbr[(n - 1).toNat]? := if_pos inside.1
    rw [later, first, Option.or_none]
    cases mbr[(n - 1).toNat]? with
    | none => simp
    | some q =>
      have zero : isExtended 0 = false := by decide
      simp only [inside.1, inside.2, true_and, Option.some.injEq, Option.map_eq_some_iff,
        Option.filter_eq_some_iff, Prod.mk.injEq, reduceCtorEq, or_false, DosPartition.used,
        Bool.and_eq_true, bne_iff_ne, Bool.not_eq_true']
      constructor
      · rintro ⟨rfl, used, rfl⟩
        cases kind : isExtended q.sysInd with
        | true => exact Or.inr ⟨rfl, rfl, rfl⟩
        | false => exact Or.inl ⟨q, ⟨rfl, used, kind⟩, rfl, rfl⟩
      · rintro (⟨r, ⟨rfl, used, -⟩, rfl, rfl⟩ | ⟨rfl, rfl, kind⟩)
        · exact ⟨rfl, used, rfl⟩
        · exact ⟨rfl, fun empty => by simp [empty, zero] at kind, rfl⟩
  · have first : nth mbr 1 n = none := by
      unfold nth
      split
      · exact List.getElem?_eq_none (by omega)
      · rfl
    have outside : ¬(1 ≤ n ∧ n ≤ 4 ∧ sector = 0 ∧ mbr[(n - 1).toNat]? = some p ∧
        isExtended p.sysInd = true) := fun slot => inside ⟨slot.1, slot.2.1⟩
    simp only [first, outside, reduceCtorEq, false_and, false_or, or_false, Option.filter_none,
      Option.map_none, Option.none_or]

theorem listed_sorted (slots : mbr.length = 4) (ebrs : List (UInt32 × List DosPartition)) :
    (listed mbr ebrs).Pairwise (·.1 < ·.1) := by
  refine List.pairwise_append.mpr ⟨?_, number_sorted _ 5, ?_⟩
  · refine List.pairwise_map.mpr (List.Pairwise.filter _ ?_)
    exact number_sorted mbr 1
  · intro slot member later behind
    obtain ⟨entry, inside, rfl⟩ := List.mem_map.mp member
    have found := (mem_number mbr 1 entry.1 entry.2).mp (List.mem_filter.mp inside).1
    have high := first_le_of_nth ((mem_number _ 5 later.1 later.2).mp behind)
    have low : entry.1 < 5 := by
      unfold nth at found
      split at found
      · have bound := (List.getElem?_eq_some_iff.mp found).1
        omega
      · cases found
    exact lt_of_lt_of_le low high

end Walks

/-- On a finite chain the search by number finds a slot of the master boot record that is in use and
not extended, or a logical partition in the order of the chain, with a start relative to the sector
of its table, and fails for every other number. The listing shows these partitions under the same
numbers, and besides them the extended slots of the master boot record. -/
theorem dos_partitions_numbered (d : DosDev) (mbr : List DosPartition)
    (ebrs : List (UInt32 × List DosPartition)) (chain : DosChain d mbr ebrs) (info : DosInfo)
    (tables : Nat) (enough : ebrs.length + 1 ≤ tables) :
    (∀ n, (∀ sector p, partitionAt mbr ebrs n = some (sector, p) →
        ∃ found, getPartitionInfoDos d n info tables = some (some found) ∧
          found.start = sector + p.start4 ∧ found.size = p.size4 ∧
          found.bootable = p.isBootable) ∧
      (partitionAt mbr ebrs n = none → getPartitionInfoDos d n info tables = some none)) ∧
    ∃ (disksig : UInt32) (listing : List (Int × UInt32 × DosPartition)),
      printPartDos d tables = some (listing.map fun entry => .part entry.1
        (entry.2.1 + entry.2.2.start4).toInt32 entry.2.2.size4.toInt32 disksig entry.2.2.sysInd
        (isExtended entry.2.2.sysInd) entry.2.2.isBootable) ∧
      listing.Pairwise (·.1 < ·.1) ∧
      ∀ n sector p, (n, sector, p) ∈ listing ↔ partitionAt mbr ebrs n = some (sector, p) ∨
        (1 ≤ n ∧ n ≤ 4 ∧ sector = 0 ∧ mbr[(n - 1).toNat]? = some p ∧
          isExtended p.sysInd = true) := by
  have slots : mbr.length = 4 := by cases chain <;> rfl
  constructor
  · intro n
    rw [get_of_dosChain chain n info enough]
    constructor
    · intro sector p known
      rw [known]
      exact ⟨_, rfl, rfl, rfl, rfl⟩
    · intro unknown
      rw [unknown]
      rfl
  · obtain ⟨disksig, printed⟩ := print_of_dosChain chain enough
    exact ⟨disksig, listed mbr ebrs, printed, listed_sorted slots ebrs, mem_listed slots ebrs⟩

/-! ## A disk -/

/-- The sixteen bytes of an entry. -/
def DosPartition.bytes (p : DosPartition) : List UInt8 :=
  [p.bootInd, 0, 0, 0, p.sysInd, 0, 0, 0] ++ le32Bytes p.start4 ++ le32Bytes p.size4

/-- A block with a table and the signature. -/
def tableBlock (entries : List DosPartition) : Memory :=
  (Memory.blank.store 0x1be (entries.flatMap DosPartition.bytes)).store 0x1fe [0x55, 0xaa]

/-- A disk with a partition behind sector 2^31, an extended partition, and two records in it. -/
def sampleDosDev : DosDev where
  blockRead sector :=
    if sector = 0 then
      some (tableBlock [⟨0x80, 0x83, 0x80000010, 0x80000020⟩, ⟨0, 5, 100, 1000⟩])
    else if sector = 100 then some (tableBlock [⟨0, 0x83, 10, 20⟩, ⟨0, 5, 50, 60⟩])
    else if sector = 150 then some (tableBlock [⟨0, 0x83, 7, 8⟩])
    else none
  lba := 0xffffffff
  ifType := .usb
  dev := 0

theorem sampleDosDev_chain :
    DosChain sampleDosDev
      (dosTable (tableBlock [⟨0x80, 0x83, 0x80000010, 0x80000020⟩, ⟨0, 5, 100, 1000⟩]))
      [(100, dosTable (tableBlock [⟨0, 0x83, 10, 20⟩, ⟨0, 5, 50, 60⟩])),
        (150, dosTable (tableBlock [⟨0, 0x83, 7, 8⟩]))] := by
  apply DosChain.extended (p := ⟨0, 5, 100, 1000⟩) rfl
  · constructor <;> decide
  · decide
  · apply EbrChain.link (p := ⟨0, 5, 50, 60⟩) (by decide) rfl
    · constructor <;> decide
    · decide
    · apply EbrChain.last (by decide) rfl
      · constructor <;> decide
      · decide

/-- What `info` holds before the search. -/
def blankInfo : DosInfo := ⟨0, 0, 0, "", "", false⟩

/-- The sixth partition of the disk is in the second record. -/
theorem dos_partitions_numbered_sample :
    ∃ found, getPartitionInfoDos sampleDosDev 6 blankInfo 3 = some (some found) ∧
      found.start = 157 ∧ found.size = 8 := by
  obtain ⟨search, -⟩ := dos_partitions_numbered sampleDosDev _ _ sampleDosDev_chain blankInfo 3
    (by decide)
  obtain ⟨found, got, start, size, -⟩ := (search 6).1 150 ⟨0, 0x83, 7, 8⟩ (by decide)
  exact ⟨found, got, start, size⟩

/-- A disk whose second slot is in use with a boot indicator that is neither set nor not. -/
def oddDosDev : DosDev :=
  { sampleDosDev with
    blockRead := fun _ => some (tableBlock [⟨0, 0x83, 10, 20⟩, ⟨1, 0x83, 30, 40⟩]) }

/-- The listing shows an extended slot that the search does not find, and a slot with an odd boot
indicator that is in use and not extended is listed and not found. -/
theorem dos_partitions_otherwise :
    getPartitionInfoDos sampleDosDev 2 blankInfo 3 = some none ∧
    printPartDos sampleDosDev 3 = some [
      .part 1 (-2147483632) (-2147483616) 0 0x83 false true, .part 2 100 1000 0 5 true false,
      .part 5 110 20 0 0x83 false false, .part 6 157 8 0 0x83 false false] ∧
    getPartitionInfoDos oddDosDev 2 blankInfo 1 = some none ∧
    printPartDos oddDosDev 1 = some [
      .part 1 10 20 0 0x83 false false, .part 2 30 40 0 0x83 false false] := by
  refine ⟨?_, ?_, ?_, ?_⟩ <;> decide +kernel

end HrppBoot.Disk
