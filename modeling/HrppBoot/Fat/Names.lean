import HrppBoot.Fat.Directory
import Mathlib.Data.List.DropRight

/-!
# Files of a directory

`Directory` says which files a sequence of records stands for, and `File.Named` which names a file
has. `get_name` returns the short name of an entry if the name has no spaces inside, and the slots
read one after the other give the long name if it has Latin-1 characters only.
-/

namespace HrppBoot.Fat

open ByteMemory

/-! ## Names -/

/-- The UTF-16 code units of a slot. -/
def Record.slotUnits (record : Record) : List Nat := slotPositions.map record.half

/-- A file: the slots of its long name, in the order of the directory, and its entry. -/
structure File where
  slots : List Record
  dent : Record

/-- A long name: the code units of the slots from the last to the first, up to a NUL. -/
def longName (slots : List Record) : List Nat :=
  (slots.reverse.flatMap Record.slotUnits).takeWhile (· ≠ 0)

/-- A part of a short name, without the spaces behind it. -/
def trimmed (part : List UInt8) : List UInt8 := part.rdropWhile (· = 0x20)

/-- A first character 0x05 stands for 0xe5. -/
def unescaped (name : List UInt8) : List UInt8 :=
  match name with
  | [] => []
  | c :: rest => (if c = aRing then deletedFlag else c) :: rest

/-- A short name. -/
def shortName (dent : Record) : List UInt8 :=
  unescaped (trimmed dent.base ++
    if trimmed dent.ext = [] then [] else 0x2e :: trimmed dent.ext)

/-- The characters of a name with Latin-1 characters only. -/
def latin1 (units : List Nat) : Option (List UInt8) :=
  if ∀ unit ∈ units, unit < 256 then some (units.map UInt8.ofNat) else none

/-- The file has the name, short or long, in upper or lower case. -/
def File.Named (file : File) (name : List UInt8) : Prop :=
  downcase (shortName file.dent) = downcase name ∨
    file.slots ≠ [] ∧ (latin1 (longName file.slots)).map downcase = some (downcase name)

instance (file : File) (name : List UInt8) : Decidable (file.Named name) :=
  inferInstanceAs (Decidable (_ ∨ _))

/-! ## Directories -/

/-- Slots are numbered down to 1. -/
def Numbered : List Record → Prop
  | [] => True
  | slot :: rest => slot.byte 0 = UInt8.ofNat (rest.length + 1) ∧ Numbered rest

/-- The first of the slots of a name is marked as the last part of the name. -/
def MarkedFirst : List Record → Prop
  | [] => True
  | slot :: rest =>
    slot.byte 0 = UInt8.ofNat (rest.length + 1) ||| lastLongEntryMask ∧ Numbered rest

/-- The slots and the entry of a file, as they stand in a directory. -/
structure File.WellFormed (file : File) : Prop where
  dentLength : file.dent.length = direntSize
  used : file.dent.byte 0 ≠ deletedFlag
  printable : ∀ c ∈ file.dent.take 11, c ≠ 0
  dentAttr : file.dent.attr &&& attrVolume = 0
  slotId : MarkedFirst file.slots
  slotCount : file.slots.length ≤ 20
  slotAttr : ∀ slot ∈ file.slots, slot.attr = attrVfat
  slotFull : ∀ slot ∈ file.slots.tail, ∀ unit ∈ slot.slotUnits, unit ≠ 0

/-- The records of a directory, and the files they stand for. -/
inductive Directory : List Record → List File → Prop where
  | nil : Directory [] []
  | stop {dent : Record} {rest : List Record} (unused : dent.byte 0 = 0) :
      Directory (dent :: rest) []
  | deleted {dent : Record} {rest : List Record} {files : List File}
      (flag : dent.byte 0 = deletedFlag) (more : Directory rest files) :
      Directory (dent :: rest) files
  | label {dent : Record} {rest : List Record} {files : List File} (used : dent.byte 0 ≠ 0)
      (attr : dent.attr &&& attrVolume ≠ 0) (notSlot : dent.attr &&& attrVfat ≠ attrVfat)
      (more : Directory rest files) : Directory (dent :: rest) files
  | file {file : File} {rest : List Record} {files : List File} (wellFormed : file.WellFormed)
      (more : Directory rest files) : Directory (file.slots ++ file.dent :: rest) (file :: files)

theorem Directory.wellFormed {records : List Record} {files : List File}
    (directory : Directory records files) : ∀ file ∈ files, file.WellFormed := by
  induction directory with
  | nil => simp
  | stop => simp
  | deleted _ _ ih => exact ih
  | label _ _ _ _ ih => exact ih
  | file wellFormed _ ih => exact List.forall_mem_cons.mpr ⟨wellFormed, ih⟩

/-- The names of a file are names that the search can read. -/
structure File.Supported (file : File) : Prop where
  /-- The long name has at most `VFAT_MAXSEQ` slots. -/
  slotCount : file.slots.length ≤ vfatMaxseq
  latin : ∀ unit ∈ longName file.slots, unit < 256
  first : ∀ unit ∈ (longName file.slots).head?, unit ≠ aRing.toNat ∧ unit ≠ deletedFlag.toNat
  solid : 0x20 ∉ trimmed file.dent.base ∧ 0x20 ∉ trimmed file.dent.ext

/-! ## Short names -/

theorem takeWhile_eq_trimmed (part : List UInt8) (printable : ∀ c ∈ part, c ≠ 0)
    (solid : 0x20 ∉ trimmed part) : (part.takeWhile fun c => !endsPart c) = trimmed part := by
  have split : trimmed part ++ part.rtakeWhile (· = 0x20) = part :=
    List.rdropWhile_append_rtakeWhile ..
  have kept : ∀ c ∈ trimmed part, (!endsPart c) = true := by
    intro c member
    have visible := printable c (by rw [← split]; exact List.mem_append_left _ member)
    have solid : c ≠ 0x20 := by
      intro space
      exact solid (space ▸ member)
    simp [endsPart, visible, solid]
  have spaces : ∀ c ∈ part.rtakeWhile (· = 0x20), c = 0x20 := by
    intro c member
    simpa using List.mem_rtakeWhile_imp member
  conv_lhs => rw [← split]
  rw [List.takeWhile_append_of_pos kept]
  cases behind : part.rtakeWhile (· = 0x20) with
  | nil => simp
  | cons c rest =>
    have space : c = 0x20 := spaces c (by simp [behind])
    simp [endsPart, space]

theorem finishName_eq {name : List UInt8} (used : ∀ c ∈ name.head?, c ≠ deletedFlag) :
    finishName name = downcase (unescaped name) := by
  cases name with
  | nil => rfl
  | cons c rest =>
    have kept : c ≠ deletedFlag := used c (by simp)
    simp only [finishName, unescaped, kept, ↓reduceIte]
    split <;> rfl

/-- `get_name` returns the short name. -/
theorem getName_eq {file : File} (wellFormed : file.WellFormed) (supported : file.Supported) :
    getName file.dent = downcase (shortName file.dent) := by
  have length : file.dent.length = 32 := wellFormed.dentLength
  have base := takeWhile_eq_trimmed file.dent.base
    (fun c member => wellFormed.printable c (by
      rw [← List.take_append_drop 8 (file.dent.take 11), List.take_take]
      exact List.mem_append_left _ member)) supported.solid.1
  have ext := takeWhile_eq_trimmed file.dent.ext
    (fun c member => wellFormed.printable c (by
      rw [← List.take_append_drop 8 (file.dent.take 11), List.drop_take]
      exact List.mem_append_right _ member)) supported.solid.2
  have first : endsPart (file.dent.byte 8) = true ↔ trimmed file.dent.ext = [] := by
    have head : file.dent.ext = file.dent.byte 8 :: (file.dent.drop 9).take 2 := by
      unfold Record.ext Record.byte
      rw [List.drop_eq_getElem_cons (by omega), List.take_succ_cons]
      simp [List.getD, length]
    rw [← ext, head, List.takeWhile_cons]
    cases endsPart (file.dent.byte 8) <;> simp
  have name : (if endsPart (file.dent.byte 8) then trimmed file.dent.base
      else trimmed file.dent.base ++ 0x2e :: trimmed file.dent.ext) =
        trimmed file.dent.base ++
          if trimmed file.dent.ext = [] then [] else 0x2e :: trimmed file.dent.ext := by
    by_cases none : trimmed file.dent.ext = []
    · simp [none, first.mpr none]
    · have some : ¬endsPart (file.dent.byte 8) = true := fun ends => none (first.mp ends)
      simp [none, some]
  have used : ∀ c ∈ (trimmed file.dent.base ++
      if trimmed file.dent.ext = [] then [] else 0x2e :: trimmed file.dent.ext).head?,
      c ≠ deletedFlag := by
    intro c isHead deleted
    cases start : trimmed file.dent.base with
    | nil =>
      rw [start, List.nil_append] at isHead
      split at isHead
      · simp at isHead
      · simp only [List.head?_cons, Option.mem_def, Option.some.injEq] at isHead
        exact absurd (isHead.trans deleted) (by decide)
    | cons d rest =>
      obtain ⟨behind, whole⟩ : trimmed file.dent.base <+: file.dent.base :=
        List.rdropWhile_prefix ..
      obtain ⟨_, entry⟩ : file.dent.base <+: file.dent := List.take_prefix ..
      apply wellFormed.used
      rw [start] at isHead
      rw [← entry, ← whole, start]
      simpa [Record.byte, deleted] using isHead
  simp only [getName, base, ext, name, finishName_eq used, shortName]

/-! ## Long names -/

/-- The characters of slots, as `get_vfatname` puts them together. -/
def slotString (slots : List Record) : List UInt8 :=
  slots.reverse.flatMap fun slot => (slot2str slot).1

/-- The characters that are put together of slots in the buffer, the nearest to the entry first: a
NUL ends the name. -/
def readNear : List Record → List UInt8
  | [] => []
  | slot :: farther => (slot2str slot).1 ++ if (slot2str slot).2 then [] else readNear farther

/-- The long name that `get_vfatname` puts together where the first `near` slots are in the buffer.
In the slots behind the buffer a NUL does not end the name. -/
def readSlots (near : Nat) (slots : List Record) : List UInt8 :=
  slotString (slots.drop near) ++ readNear (slots.take near).reverse

/-- The record that the search takes for the file with the name, of a file whose first `near` slots
are in the buffer. With too many slots, the first one is compared like an entry. -/
def File.answer (file : File) (near : Nat) (name : List UInt8) : Option Record :=
  match file.slots with
  | [] => if name = getName file.dent then some file.dent else none
  | slot :: rest =>
    if rest.length < vfatMaxseq then
      if name = getName file.dent ∨ name = finishName (readSlots near (slot :: rest)) then
        some file.dent
      else none
    else if name = getName slot then some slot
    else if name = getName file.dent then some file.dent
    else none

theorem slotString_append (first second : List Record) :
    slotString (first ++ second) = slotString second ++ slotString first := by
  simp [slotString]

theorem readNear_full (slot : Record) (rest : List Record)
    (full : ∀ other ∈ rest, (slot2str other).2 = false) :
    readNear (slot :: rest).reverse = slotString (slot :: rest) := by
  induction rest using List.reverseRecOn with
  | nil => simp [readNear, slotString]
  | append_singleton rest last ih =>
    have before := ih fun other member => full other (by simp [member])
    have endless := full last (by simp)
    rw [← List.cons_append, List.reverse_append, slotString_append, ← before]
    simp [readNear, endless, slotString]

/-- Without a NUL in its slots, a name is the same wherever the buffer ends. -/
theorem readSlots_full (slot : Record) {rest : List Record} (near : Nat)
    (full : ∀ other ∈ rest, (slot2str other).2 = false) :
    readSlots near (slot :: rest) = slotString (slot :: rest) := by
  cases near with
  | zero => simp [readSlots, readNear]
  | succ near =>
    have taken := readNear_full slot (rest.take near)
      fun other member => full other (List.mem_of_mem_take member)
    rw [readSlots, List.take_succ_cons, List.drop_succ_cons, taken, ← slotString_append,
      List.cons_append, List.take_append_drop]

theorem half_cases (record : Record) (i : Nat) :
    (record.half i = 0 ∧ record.byte i = 0) ∨
      (record.half i ≠ 0 ∧ (record.half i < 256 →
        record.byte i ≠ 0 ∧ record.byte i = UInt8.ofNat (record.half i))) := by
  have low := (record.byte i).toNat_lt
  by_cases zero : record.half i = 0
  · left
    refine ⟨zero, UInt8.toNat.inj ?_⟩
    unfold Record.half at zero
    change (record.byte i).toNat = 0
    omega
  · right
    refine ⟨zero, ?_⟩
    intro latin
    have same : record.half i = (record.byte i).toNat := by
      unfold Record.half at latin ⊢
      omega
    refine ⟨?_, ?_⟩
    · intro none
      rw [same, none] at zero
      exact zero rfl
    · rw [same, UInt8.ofNat_toNat]

theorem takeWhile_byte_eq (record : Record) (positions : List Nat)
    (latin : ∀ unit ∈ (positions.map record.half).takeWhile (· ≠ 0), unit < 256) :
    (positions.map record.byte).takeWhile (· ≠ 0) =
      ((positions.map record.half).takeWhile (· ≠ 0)).map UInt8.ofNat := by
  induction positions with
  | nil => rfl
  | cons i positions ih =>
    obtain ⟨noUnit, noByte⟩ | ⟨isUnit, low⟩ := half_cases record i
    · simp [noUnit, noByte]
    · simp only [List.map_cons, List.takeWhile_cons, ne_eq, isUnit, not_false_eq_true, decide_true,
        ↓reduceIte, List.mem_cons, forall_eq_or_imp] at latin ⊢
      obtain ⟨isByte, same⟩ := low latin.1
      simp only [isByte, not_false_eq_true, decide_true, ↓reduceIte, ← same]
      rw [ih latin.2]

theorem takeWhile_units {units : List Nat} (full : ∀ unit ∈ units, unit ≠ 0) :
    units.takeWhile (· ≠ 0) = units := by
  rw [List.takeWhile_eq_self_iff]
  simpa using full

theorem longName_cons {slot : Record} {rest : List Record}
    (full : ∀ slot ∈ rest, ∀ unit ∈ slot.slotUnits, unit ≠ 0) :
    longName (slot :: rest) =
      rest.reverse.flatMap Record.slotUnits ++ slot.slotUnits.takeWhile (· ≠ 0) := by
  unfold longName
  rw [List.reverse_cons, List.flatMap_append, List.takeWhile_append_of_pos]
  · simp
  · intro unit member
    obtain ⟨other, isSlot, inside⟩ := List.mem_flatMap.mp member
    simpa using full other (List.mem_reverse.mp isSlot) unit inside

theorem slot2str_eq (slot : Record)
    (latin : ∀ unit ∈ slot.slotUnits.takeWhile (· ≠ 0), unit < 256) :
    (slot2str slot).1 = (slot.slotUnits.takeWhile (· ≠ 0)).map UInt8.ofNat :=
  takeWhile_byte_eq slot Record.slotPositions latin

theorem slot2str_full {slot : Record} (full : ∀ unit ∈ slot.slotUnits, unit ≠ 0)
    (latin : ∀ unit ∈ slot.slotUnits, unit < 256) : (slot2str slot).2 = false := by
  simp only [slot2str, List.any_eq_false, decide_eq_true_eq, Record.slotChars, List.mem_map]
  rintro _ ⟨i, position, rfl⟩
  have member : slot.half i ∈ slot.slotUnits := List.mem_map_of_mem position
  obtain ⟨none, -⟩ | ⟨-, low⟩ := half_cases slot i
  · exact absurd none (full _ member)
  · exact (low (latin _ member)).1

theorem length_slot2str_le (slot : Record) : (slot2str slot).1.length ≤ 13 := by
  have kept := (List.takeWhile_prefix (l := slot.slotChars) (· ≠ 0)).length_le
  simpa [Record.slotChars, Record.slotPositions, slot2str] using kept

theorem length_slotString_le (slots : List Record) :
    (slotString slots).length ≤ 13 * slots.length := by
  induction slots with
  | nil => simp [slotString]
  | cons slot rest ih =>
    have own := length_slot2str_le slot
    unfold slotString at ih ⊢
    rw [List.reverse_cons, List.flatMap_append, List.flatMap_singleton, List.length_append,
      List.length_cons]
    omega

theorem length_readNear_le (slots : List Record) : (readNear slots).length ≤ 13 * slots.length := by
  induction slots with
  | nil => simp [readNear]
  | cons slot rest ih =>
    have own := length_slot2str_le slot
    rw [readNear, List.length_append, List.length_cons]
    split
    · simp only [List.length_nil]
      omega
    · omega

theorem length_readSlots_le (near : Nat) (slots : List Record) :
    (readSlots near slots).length ≤ 13 * slots.length := by
  have behind := length_slotString_le (slots.drop near)
  have before := length_readNear_le (slots.take near).reverse
  have split := congrArg List.length (List.take_append_drop near slots)
  rw [List.length_reverse] at before
  rw [List.length_append] at split
  rw [readSlots, List.length_append]
  omega

section Long

variable {file : File} (wellFormed : file.WellFormed) (supported : file.Supported)
include wellFormed supported

theorem File.Supported.latin_tail (slot : Record) (member : slot ∈ file.slots.tail) :
    ∀ unit ∈ slot.slotUnits, unit < 256 := by
  intro unit inside
  apply supported.latin
  cases shape : file.slots with
  | nil => simp [shape] at member
  | cons first rest =>
    have full := wellFormed.slotFull
    rw [shape, List.tail_cons] at full member
    rw [longName_cons full]
    exact List.mem_append_left _
      (List.mem_flatMap.mpr ⟨slot, List.mem_reverse.mpr member, inside⟩)

theorem File.Supported.slot2str_tail (slot : Record) (member : slot ∈ file.slots.tail) :
    (slot2str slot).2 = false :=
  slot2str_full (wellFormed.slotFull slot member) (supported.latin_tail wellFormed slot member)

theorem slotString_eq : slotString file.slots = (longName file.slots).map UInt8.ofNat := by
  have latin := supported.latin
  have latinTail := supported.latin_tail wellFormed
  have full := wellFormed.slotFull
  cases shape : file.slots with
  | nil => rfl
  | cons first rest =>
    rw [shape, List.tail_cons] at full latinTail
    rw [shape, longName_cons full] at latin
    have others : ∀ slot ∈ rest.reverse, (slot2str slot).1 = slot.slotUnits.map UInt8.ofNat := by
      intro slot member
      have isSlot := List.mem_reverse.mp member
      have whole := takeWhile_units (full slot isSlot)
      rw [slot2str_eq slot (by rw [whole]; exact latinTail slot isSlot), whole]
    have last := slot2str_eq first
      (fun unit member => latin unit (List.mem_append_right _ member))
    rw [longName_cons full, List.map_append, ← last, slotString, List.reverse_cons,
      List.flatMap_append, List.flatMap_singleton, List.map_flatMap]
    congr 1
    exact List.flatMap_congr others

theorem finishName_slotString :
    finishName (slotString file.slots) = downcase ((longName file.slots).map UInt8.ofNat) := by
  have first := supported.first
  rw [slotString_eq wellFormed supported]
  cases shape : longName file.slots with
  | nil => rfl
  | cons unit rest =>
    have latin := supported.latin unit (by simp [shape])
    obtain ⟨notRing, notDeleted⟩ := first unit (by simp [shape])
    have value : (UInt8.ofNat unit).toNat = unit := by
      rw [UInt8.toNat_ofNat']
      omega
    have kept : UInt8.ofNat unit ≠ deletedFlag := fun same => notDeleted (by rw [← same, value])
    have plain : UInt8.ofNat unit ≠ aRing := fun same => notRing (by rw [← same, value])
    simp only [List.map_cons, finishName, kept, plain, ↓reduceIte]

theorem named_iff (name : List UInt8) :
    file.Named name ↔ downcase name = getName file.dent ∨
      file.slots ≠ [] ∧ downcase name = finishName (slotString file.slots) := by
  rw [getName_eq wellFormed supported, finishName_slotString wellFormed supported]
  unfold File.Named latin1
  rw [if_pos supported.latin, Option.map_some, Option.some.injEq, eq_comm]
  rw [eq_comm (a := downcase ((longName file.slots).map UInt8.ofNat))]

/-- The search takes the entry of a file for its names. -/
theorem File.Supported.answer (near : Nat) (name : List UInt8) :
    file.answer near (downcase name) = if file.Named name then some file.dent else none := by
  have named := named_iff wellFormed supported name
  have few := supported.slotCount
  have full := supported.slot2str_tail wellFormed
  unfold File.answer
  cases shape : file.slots with
  | nil => simp [named, shape]
  | cons slot rest =>
    rw [shape] at named few full
    rw [List.length_cons] at few
    rw [List.tail_cons] at full
    have short : rest.length < vfatMaxseq := few
    have whole := readSlots_full slot near full
    simp only [if_pos short, whole, named, ne_eq, reduceCtorEq,
      not_false_eq_true, true_and]

end Long

end HrppBoot.Fat
