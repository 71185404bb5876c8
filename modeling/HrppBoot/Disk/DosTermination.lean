import HrppBoot.Disk.DosNumbers
import HrppBoot.Lib.Recurrence

/-!
# Where the walks over partition tables end

The search for a partition goes from a table to its first extended entry, the listing to all of
them, wherever the sector numbers on the disk lead. A walk that comes back to a table with the same
base goes on for ever, unless the search finds its partition on the way.
-/

namespace HrppBoot.Disk

open ByteMemory Relation Recurrence

/-! ## Tables along the links -/

/-- A table to be read: its sector, and the sector that links from it are relative to. -/
abbrev TablePlace := Int32 × Int32

/-- The table an extended entry leads to. -/
def TablePlace.link (place : TablePlace) (p : DosPartition) : TablePlace :=
  let lbaStart := followSector p place.2
  (lbaStart, if place.1 = 0 then lbaStart else place.2)

def mbrPlace : TablePlace := (0, 0)

/-- The table the search goes on with: the one of the first extended entry. -/
def nextTable (d : DosDev) (place : TablePlace) : Option TablePlace :=
  match d.blockRead place.1.toUInt32 with
  | none => none
  | some buffer =>
    if hasMagic buffer then
      ((dosTable buffer).find? fun p => isExtended p.sysInd).map place.link
    else none

def numberBehind (d : DosDev) (place : TablePlace) (partNum : Int) : Int :=
  match d.blockRead place.1.toUInt32 with
  | none => partNum
  | some buffer => (dosTable buffer).foldl (fun partNum p => countSlot place.1 p partNum) partNum

/-- The table the search goes on with, and the part number of its first entry. -/
def nextNumbered (d : DosDev) (state : TablePlace × Int) : Option (TablePlace × Int) :=
  (nextTable d state.1).map fun place => (place, numberBehind d state.1 state.2)

/-- The partition with a number is in a table. -/
def FoundIn (d : DosDev) (whichPart : Int) (state : TablePlace × Int) : Prop :=
  ∃ buffer p, d.blockRead state.1.1.toUInt32 = some buffer ∧ hasMagic buffer = true ∧
    searchSlots state.1.1 whichPart state.2 (dosTable buffer) = .inl p

/-- The listing goes on from a table with another one, that of any extended entry. -/
def Follows (d : DosDev) (place other : TablePlace) : Prop :=
  ∃ buffer, d.blockRead place.1.toUInt32 = some buffer ∧ testBlockType buffer = .mbr ∧
    ∃ p ∈ dosTable buffer, isExtended p.sysInd = true ∧ other = place.link p

theorem tablePlace_finite : Finite TablePlace := by
  have sectors : Finite Int32 := by
    have words : Finite UInt32 :=
      Finite.of_injective (fun word : UInt32 => word.toFin) fun _ _ same => UInt32.toFin_inj.mp same
    exact Finite.of_injective Int32.toUInt32 fun _ _ same => congrArg UInt32.toInt32 same
  infer_instance

/-! ## The search -/

variable {d : DosDev} {whichPart : Int}

theorem searchSlots_inr {extPartSector : Int32} {partNum behind : Int} {table : List DosPartition}
    (passed : searchSlots extPartSector whichPart partNum table = .inr behind) :
    table.foldl (fun partNum p => countSlot extPartSector p partNum) partNum = behind := by
  induction table generalizing partNum with
  | nil => exact Sum.inr.inj passed
  | cons p rest ih =>
    rw [searchSlots] at passed
    split at passed
    · cases passed
    · exact ih passed

open Classical in
/-- The search as a loop over tables with their part numbers. -/
theorem getPartitionInfoExtended_fuelled (d : DosDev) (whichPart : Int) (info : DosInfo) :
    Fuelled (fun state => if FoundIn d whichPart state then none else nextNumbered d state)
      fun tables state =>
        getPartitionInfoExtended d whichPart info tables state.1.1 state.1.2 state.2 := by
  refine ⟨fun _ => rfl, ?_, ?_⟩
  · rintro ⟨⟨extPartSector, relative⟩, partNum⟩ last
    dsimp only
    cases read : d.blockRead extPartSector.toUInt32 with
    | none => exact ⟨none, fun tables => by rw [getPartitionInfoExtended, read]⟩
    | some buffer =>
      cases magic : hasMagic buffer with
      | false =>
        refine ⟨none, fun tables => ?_⟩
        rw [getPartitionInfoExtended, read]
        dsimp only
        rw [magic, if_neg Bool.false_ne_true]
      | true =>
        cases search : searchSlots extPartSector whichPart partNum (dosTable buffer) with
        | inl p =>
          refine ⟨some (dosInfo d extPartSector whichPart p), fun tables => ?_⟩
          rw [getPartitionInfoExtended, read]
          dsimp only
          rw [magic, if_pos rfl, search]
        | inr behind =>
          have missed : ¬FoundIn d whichPart ((extPartSector, relative), partNum) := by
            rintro ⟨other, p, same, -, found⟩
            obtain rfl := Option.some.inj (read.symm.trans same)
            cases search.symm.trans found
          rw [if_neg missed, nextNumbered, Option.map_eq_none_iff, nextTable] at last
          dsimp only at last
          rw [read] at last
          dsimp only at last
          rw [if_pos magic, Option.map_eq_none_iff] at last
          by_cases pbr : testBlockType buffer = .pbr
          · refine ⟨some { info with
                start := 0, size := d.lba, blksz := dosPartDefaultSector, type := "U-Boot",
                bootable := false }, fun tables => ?_⟩
            rw [getPartitionInfoExtended, read]
            dsimp only
            rw [magic, if_pos rfl, search, last]
            exact if_pos pbr
          · refine ⟨none, fun tables => ?_⟩
            rw [getPartitionInfoExtended, read]
            dsimp only
            rw [magic, if_pos rfl, search, last]
            exact if_neg pbr
  · rintro tables ⟨⟨extPartSector, relative⟩, partNum⟩ ⟨place, number⟩ step
    dsimp only at step ⊢
    split at step
    · cases step
    · next missed =>
      obtain ⟨other, table, same⟩ := Option.map_eq_some_iff.mp step
      cases same
      rw [nextTable] at table
      dsimp only at table
      cases read : d.blockRead extPartSector.toUInt32 with
      | none =>
        rw [read] at table
        cases table
      | some buffer =>
        rw [read] at table
        dsimp only at table
        cases magic : hasMagic buffer with
        | false =>
          rw [magic, if_neg Bool.false_ne_true] at table
          cases table
        | true =>
          rw [magic, if_pos rfl] at table
          obtain ⟨p, first, rfl⟩ := Option.map_eq_some_iff.mp table
          cases search : searchSlots extPartSector whichPart partNum (dosTable buffer) with
          | inl found => exact absurd ⟨buffer, found, read, magic, search⟩ missed
          | inr behind =>
            have counted := searchSlots_inr search
            rw [getPartitionInfoExtended, read]
            dsimp only
            rw [magic, if_pos rfl, search]
            dsimp only
            rw [first, numberBehind, read]
            dsimp only
            rw [counted]
            rfl

open Classical in
theorem getPartitionInfoDos_ends_iff (d : DosDev) (whichPart : Int) (info : DosInfo) :
    (∃ N result, ∀ tables ≥ N, getPartitionInfoDos d whichPart info tables = some result) ↔
      ¬Circles (nextTable d) mbrPlace ∨
        ∃ state, ReflTransGen (Turn (nextNumbered d)) (mbrPlace, 1) state ∧
          FoundIn d whichPart state := by
  have finite := @tablePlace_finite
  rw [← stops_iff_not_circles (Set.toFinite {place : TablePlace | True}) trivial
    fun _ _ _ _ => trivial]
  refine Iff.trans (@Fuelled.settles_iff _ _ _ (mbrPlace, 1) _
    (getPartitionInfoExtended_fuelled d whichPart info)) ?_
  have place (state : TablePlace × Int) :
      (nextNumbered d state).map Prod.fst = nextTable d state.1 := by
    rw [nextNumbered, Option.map_map]
    exact Option.map_id'
  rw [stops_unless_iff, stops_map_iff Prod.fst place]

/-! ## The listing -/

theorem joinLines_settles {α : Type} {walk : Nat → α → Option (List DosLine)} {list : List α}
    (settle : ∀ a ∈ list, ∃ N lines, ∀ n ≥ N, walk n a = some lines) :
    ∃ N lines, ∀ n ≥ N, joinLines (list.map (walk n)) = some lines := by
  induction list with
  | nil => exact ⟨0, [], fun _ _ => rfl⟩
  | cons a rest ih =>
    obtain ⟨N, lines, first⟩ := settle a List.mem_cons_self
    obtain ⟨M, later, others⟩ := ih fun b member => settle b (List.mem_cons_of_mem a member)
    refine ⟨max N M, lines ++ later, fun n enough => ?_⟩
    rw [List.map_cons, joinLines, first n (by omega), Option.bind_some, others n (by omega)]
    rfl

theorem joinLines_some {walks : List (Option (List DosLine))} {lines : List DosLine}
    (joined : joinLines walks = some lines) : ∀ walk ∈ walks, walk ≠ none := by
  induction walks generalizing lines with
  | nil => exact fun _ member => absurd member List.not_mem_nil
  | cons first rest ih =>
    rw [joinLines] at joined
    obtain ⟨lines, some, later⟩ := Option.bind_eq_some_iff.mp joined
    obtain ⟨others, rest, -⟩ := Option.map_eq_some_iff.mp later
    intro walk member
    rcases List.mem_cons.mp member with rfl | behind
    · rw [some]
      exact Option.some_ne_none lines
    · exact ih rest walk behind

/-- The listing ends from a table from which no links go on for ever. -/
theorem printPartitionExtended_settles {place : TablePlace}
    (ends : Acc (fun other place => Follows d place other) place) (partNum : Int)
    (disksig : UInt32) :
    ∃ N lines, ∀ tables ≥ N,
      printPartitionExtended d tables place.1 place.2 partNum disksig = some lines := by
  induction ends generalizing partNum disksig with
  | intro place _ ih =>
    cases read : d.blockRead place.1.toUInt32 with
    | none =>
      refine ⟨1, [.unreadable d.dev place.1], fun tables enough => ?_⟩
      obtain ⟨tables, rfl⟩ := Nat.exists_eq_add_of_le' enough
      rw [printPartitionExtended, read]
    | some buffer =>
      by_cases type : testBlockType buffer = .mbr
      · obtain ⟨N, later, joined⟩ := @joinLines_settles DosPartition
          (fun tables p => printPartitionExtended d tables (place.link p).1 (place.link p).2
            (printSlots place.1 (if place.1 = 0 then buffer.word32 0x1b8 else disksig) partNum
              (dosTable buffer)).2 (if place.1 = 0 then buffer.word32 0x1b8 else disksig))
          ((dosTable buffer).filter fun p => isExtended p.sysInd) fun p member => by
            have inside := List.mem_filter.mp member
            exact ih (place.link p) ⟨buffer, read, type, p, inside.1, inside.2, rfl⟩ _ _
        refine ⟨N + 1, (printSlots place.1 (if place.1 = 0 then buffer.word32 0x1b8 else disksig)
          partNum (dosTable buffer)).1 ++ later, fun tables enough => ?_⟩
        obtain ⟨tables, rfl⟩ := Nat.exists_eq_add_of_le' (Nat.le_of_add_left_le enough)
        rw [printPartitionExtended, read]
        dsimp only
        rw [if_neg (not_not.mpr type)]
        exact congrArg (Option.map _) (joined tables (by omega))
      · refine ⟨1, [.badSignature (buffer 0x1fe) (buffer 0x1ff)], fun tables enough => ?_⟩
        obtain ⟨tables, rfl⟩ := Nat.exists_eq_add_of_le' enough
        rw [printPartitionExtended, read]
        exact if_pos type

theorem acc_of_printPartitionExtended {tables : Nat} {place : TablePlace} {partNum : Int}
    {disksig : UInt32} {lines : List DosLine}
    (listed : printPartitionExtended d tables place.1 place.2 partNum disksig = some lines) :
    Acc (fun other place => Follows d place other) place := by
  induction tables generalizing place partNum disksig lines with
  | zero => cases listed
  | succ tables ih =>
    refine .intro place ?_
    rintro other ⟨buffer, read, type, p, member, extended, rfl⟩
    rw [printPartitionExtended, read] at listed
    dsimp only at listed
    rw [if_neg (not_not.mpr type)] at listed
    obtain ⟨later, joined, -⟩ := Option.map_eq_some_iff.mp listed
    have walked := joinLines_some joined _
      (List.mem_map_of_mem (List.mem_filter.mpr ⟨member, extended⟩))
    obtain ⟨lines, walk⟩ := Option.ne_none_iff_exists'.mp walked
    exact ih walk

theorem printPartDos_ends_iff (d : DosDev) :
    (∃ N lines, ∀ tables ≥ N, printPartDos d tables = some lines) ↔
      ¬Returns (Follows d) mbrPlace := by
  have finite := @tablePlace_finite
  constructor
  · rintro ⟨N, lines, listed⟩
    exact not_returns_of_acc
      (@acc_of_printPartitionExtended d N mbrPlace 1 0 lines (listed N (Nat.le_refl N)))
  · intro once
    exact printPartitionExtended_settles (acc_of_not_returns (Set.toFinite _) once) 1 0

/-! ## Both -/

/-- Where the search for a partition and the listing end. -/
theorem dos_walks_end_iff (d : DosDev) :
    (∀ whichPart info,
      (∃ N result, ∀ tables ≥ N, getPartitionInfoDos d whichPart info tables = some result) ↔
        ¬Circles (nextTable d) mbrPlace ∨
          ∃ state, ReflTransGen (Turn (nextNumbered d)) (mbrPlace, 1) state ∧
            FoundIn d whichPart state) ∧
    ((∃ N lines, ∀ tables ≥ N, printPartDos d tables = some lines) ↔
      ¬Returns (Follows d) mbrPlace) :=
  ⟨getPartitionInfoDos_ends_iff d, printPartDos_ends_iff d⟩

/-- A disk whose extended partition at sector 100 leads to itself. -/
def circularDosDev : DosDev where
  blockRead sector := some (tableBlock [⟨0, 5, if sector = 0 then 100 else 0, 1⟩])
  lba := 200
  ifType := .usb
  dev := 0

/-- From its extended table on neither walk ends. -/
theorem circularDosDev_table (tables : Nat) (info : DosInfo) :
    getPartitionInfoExtended circularDosDev 6 info tables 100 100 5 = none ∧
      printPartitionExtended circularDosDev tables 100 100 5 0 = none := by
  have read : circularDosDev.blockRead (100 : Int32).toUInt32 =
      some (tableBlock [⟨0, 5, 0, 1⟩]) := rfl
  have magic : hasMagic (tableBlock [⟨0, 5, 0, 1⟩]) = true := by decide +kernel
  have type : testBlockType (tableBlock [⟨0, 5, 0, 1⟩]) = .mbr := by decide +kernel
  have search : searchSlots 100 6 5 (dosTable (tableBlock [⟨0, 5, 0, 1⟩])) = .inr 5 := by
    decide +kernel
  have first : ((dosTable (tableBlock [⟨0, 5, 0, 1⟩])).find? fun p => isExtended p.sysInd) =
      some ⟨0, 5, 0, 1⟩ := by decide +kernel
  have slots : printSlots 100 0 5 (dosTable (tableBlock [⟨0, 5, 0, 1⟩])) = ([], 5) := by
    decide +kernel
  have links : ((dosTable (tableBlock [⟨0, 5, 0, 1⟩])).filter fun p => isExtended p.sysInd) =
      [⟨0, 5, 0, 1⟩] := by decide +kernel
  have sector : followSector ⟨0, 5, 0, 1⟩ 100 = 100 := by decide
  have apart : ¬(100 : Int32) = 0 := by decide
  induction tables with
  | zero => exact ⟨rfl, rfl⟩
  | succ tables ih =>
    constructor
    · rw [getPartitionInfoExtended, read]
      dsimp only
      rw [magic, if_pos rfl, search]
      dsimp only
      rw [first]
      dsimp only
      rw [sector, if_neg apart]
      exact ih.1
    · rw [printPartitionExtended, read]
      dsimp only
      rw [type, if_neg (not_not.mpr rfl), if_neg apart, slots, links, List.map_cons, sector]
      dsimp only
      rw [if_neg apart, ih.2]
      rfl

/-- The search for a sixth partition and the listing do not end on it. -/
theorem circularDosDev_endless :
    (∀ tables, getPartitionInfoDos circularDosDev 6 blankInfo tables = none) ∧
      ∀ tables, printPartDos circularDosDev tables = none := by
  constructor
  · rintro (_ | tables)
    · rfl
    · exact (circularDosDev_table tables blankInfo).1
  · rintro (_ | tables)
    · rfl
    · have behind := (circularDosDev_table tables blankInfo).2
      exact congrArg (fun later => (joinLines [later]).map _) behind

end HrppBoot.Disk
