import HrppBoot.Lib.Groups
import HrppBoot.Parts.Sizes
import Mathlib.Data.List.Pairwise

/-!
# What parsing, adding and deleting build

The partitions of a device are sorted by their offsets, and at most one of them starts at offset 0.
Each was accepted by `part_validate`, with a name that has no closing parenthesis. Each device is
the one that its identifier names, and no two devices have the same type and number.
-/

namespace HrppBoot.Parts

open HrppBoot.Lib

variable {table : MtdTable} {ids : List Mtdids} {id : Mtdids} {part : PartInfo}

/-! ## Partitions -/

/-- The partition with the size that remains where it has none. -/
def PartInfo.filled (id : Mtdids) (part : PartInfo) : PartInfo :=
  if part.size = sizeRemaining then { part with size := (id.size + 2 ^ 64 - part.offset) % 2 ^ 64 }
  else part

theorem filled_of_size (given : part.size ≠ sizeRemaining) : part.filled id = part := if_neg given

@[simp] theorem filled_offset : (part.filled id).offset = part.offset := by
  rw [PartInfo.filled]
  split <;> rfl

@[simp] theorem filled_name : (part.filled id).name = part.name := by
  rw [PartInfo.filled]
  split <;> rfl

@[simp] theorem filled_maskFlags : (part.filled id).maskFlags = part.maskFlags := by
  rw [PartInfo.filled]
  split <;> rfl

theorem filled_size_lt (fits : part.size < 2 ^ 64) : (part.filled id).size < 2 ^ 64 := by
  rw [PartInfo.filled]
  split
  · exact Nat.mod_lt _ (by decide)
  · exact fits

theorem filled_filled : (part.filled id).filled id = part.filled id := by
  by_cases remaining : part.size = sizeRemaining
  · rw [PartInfo.filled]
    split
    · simp only [PartInfo.filled, remaining, if_true]
    · rfl
  · rw [filled_of_size remaining, filled_of_size remaining]

/-- A partition that `part_validate` can return. -/
structure PartOk (table : MtdTable) (id : Mtdids) (part : PartInfo) : Prop where
  valid : partValidate table id part = some part
  fits : part.offset + part.size < 2 ^ 64
  positive : 0 < part.size
  name : ∀ name ∈ part.name, name ≠ [] ∧ ')' ∉ name
  flags : part.maskFlags ≤ 1

/-- The fields of a partition as `part_parse` fills them. -/
structure PartRead (part : PartInfo) : Prop where
  size : part.size < 2 ^ 64
  offset : part.offset < 2 ^ 64
  name : ∀ name ∈ part.name, name ≠ [] ∧ ')' ∉ name
  flags : part.maskFlags ≤ 1

theorem partValidate_eq (table : MtdTable) (id : Mtdids) (part : PartInfo) :
    partValidate table id part =
      if id.size < part.offset ∨
          ((part.offset + (part.filled id).size) % 2 ^ 64 ≤ part.offset ∨
            id.size < (part.offset + (part.filled id).size) % 2 ^ 64) then none
      else if partValidateEraseblock table id (part.filled id) then some (part.filled id)
      else none := by
  have whole : partValidate table id part =
      if id.size < (part.filled id).offset then none
      else if ((part.filled id).offset + (part.filled id).size) % 2 ^ 64 ≤
          (part.filled id).offset then none
      else if id.size < ((part.filled id).offset + (part.filled id).size) % 2 ^ 64 then none
      else if partValidateEraseblock table id (part.filled id) then some (part.filled id)
      else none := rfl
  rw [whole, filled_offset]
  split
  next beyond => rw [if_pos (Or.inl beyond)]
  split
  next large => rw [if_pos (Or.inr (Or.inl large))]
  split
  next exceeds => rw [if_pos (Or.inr (Or.inr exceeds))]
  next inside positive within => rw [if_neg (not_or.mpr ⟨inside, not_or.mpr ⟨positive, within⟩⟩)]

theorem partValidate_some (read : PartRead part) {accepted : PartInfo}
    (validated : partValidate table id part = some accepted) :
    accepted = part.filled id ∧ PartOk table id accepted := by
  have whole := partValidate_eq table id part
  rw [validated] at whole
  split at whole
  next => exact absurd whole (by simp)
  next inside =>
    split at whole
    next =>
      obtain rfl := Option.some.inj whole
      have bound := @filled_size_lt id part read.size
      have offset := read.offset
      refine ⟨rfl, ?_, ?_, ?_, ?_, ?_⟩
      · rw [partValidate_eq, filled_filled, filled_offset, ← partValidate_eq, validated]
      · rw [filled_offset]; omega
      · by_contra empty
        rw [Nat.eq_zero_of_not_pos empty] at inside
        omega
      · simpa using read.name
      · simpa using read.flags
    next => exact absurd whole (by simp)

/-! ## Reading a partition -/

variable {p rest : Text} {parts : List PartInfo} {dev : MtdDevice} {devices : List MtdDevice}

theorem strchr_some {c : Char} {text : Text} (found : strchr c p = some (text, rest)) :
    c ∉ text := by
  induction p generalizing text with
  | nil => simp [strchr] at found
  | cons d p ih =>
    rw [strchr] at found
    split at found
    next =>
      obtain ⟨rfl, _⟩ := by simpa using found
      simp
    next other =>
      obtain ⟨⟨inner, behind⟩, before, same⟩ := Option.map_eq_some_iff.mp found
      obtain ⟨rfl, rfl⟩ := by simpa using same
      simp [ih before, Ne.symm other]

theorem fetchSize_lt {partdef : Text} {size : Nat} (fetched : fetchSize partdef = some (size, p))
    : size < 2 ^ 64 := by
  unfold fetchSize at fetched
  split at fetched
  next =>
    obtain ⟨rfl, _⟩ := by simpa using fetched
    decide
  next =>
    dsimp only at fetched
    split at fetched
    next => exact absurd fetched (by simp)
    next =>
      have bound := memsizeParse_lt partdef
      rwa [Option.some.inj fetched] at bound

theorem checkOffset_lt (p : Text) : (checkOffset p).1 < 2 ^ 64 := by
  unfold checkOffset
  split
  · exact memsizeParse_lt _
  · exact Nat.sub_lt (by decide) Nat.one_pos

theorem lookForName_some {found : Option Text} (looked : lookForName p = some (found, rest)) :
    ∀ name ∈ found, name ≠ [] ∧ ')' ∉ name := by
  unfold lookForName at looked
  split at looked
  next p =>
    split at looked
    next => exact absurd looked (by simp)
    next => exact absurd looked (by simp)
    next name behind empty read =>
      obtain ⟨rfl, _⟩ := by simpa using looked
      intro name' same
      obtain rfl := by simpa using same
      refine ⟨?_, strchr_some read⟩
      rintro rfl
      exact empty rfl
  next =>
    obtain ⟨rfl, _⟩ := by simpa using looked
    simp

theorem partParse_some {partdef : Text} (parsed : partParse partdef = some (part, p)) :
    PartRead part := by
  obtain ⟨⟨size, p₁⟩, fetched, parsed⟩ := Option.bind_eq_some_iff.mp parsed
  obtain ⟨⟨name, p₂⟩, looked, parsed⟩ := Option.bind_eq_some_iff.mp parsed
  obtain ⟨p₃, _, parsed⟩ := Option.bind_eq_some_iff.mp parsed
  obtain ⟨rfl, rfl⟩ := by simpa using parsed
  refine ⟨fetchSize_lt fetched, checkOffset_lt p₁, lookForName_some looked, ?_⟩
  show (testOptions p₂).1 ≤ 1
  unfold testOptions
  split
  · exact Nat.le_refl 1
  · exact Nat.zero_le 1

/-! ## Lists of partitions -/

/-- Sorted by the offsets, with at most one partition at offset 0. -/
abbrev PartsSorted (parts : List PartInfo) : Prop :=
  parts.Pairwise fun a b => a.offset ≤ b.offset ∧ 0 < b.offset

/-- The partitions of a device. -/
structure PartsOk (table : MtdTable) (id : Mtdids) (parts : List PartInfo) : Prop where
  nonempty : parts ≠ []
  sorted : PartsSorted parts
  each : ∀ part ∈ parts, PartOk table id part

theorem PartsSorted.keySorted (sorted : PartsSorted parts) :
    KeySorted PartInfo.offset parts := sorted.imp And.left

theorem partSortAdd_some {result : List PartInfo} (sorted : PartsSorted parts)
    (added : partSortAdd part parts = some result) :
    result = keyInsert PartInfo.offset part parts ∧ PartsSorted result := by
  induction parts generalizing result with
  | nil =>
    obtain rfl : [part] = result := by simpa [partSortAdd] using added
    exact ⟨rfl, List.pairwise_singleton _ _⟩
  | cons pi parts ih =>
    rw [partSortAdd] at added
    split at added
    next => exact absurd added (by simp)
    next single =>
      split at added
      next front =>
        obtain rfl := Option.some.inj added
        refine ⟨(keyInsert_front front _).symm, List.pairwise_cons.mpr ⟨fun b member => ?_, sorted⟩⟩
        rcases List.mem_cons.mp member with rfl | member
        · exact ⟨front, by omega⟩
        · have behind := List.rel_of_pairwise_cons sorted member
          exact ⟨front.trans behind.1, behind.2⟩
      next behind =>
        obtain ⟨rest, inserted, rfl⟩ := Option.map_eq_some_iff.mp added
        obtain ⟨same, order⟩ := ih sorted.of_cons inserted
        refine ⟨by rw [keyInsert_behind (by omega), same],
          List.pairwise_cons.mpr ⟨fun b member => ?_, order⟩⟩
        rw [same] at member
        rcases List.mem_cons.mp ((List.perm_orderedInsert _ _ _).mem_iff.mp member) with
          rfl | member
        · exact ⟨by omega, by omega⟩
        · exact List.rel_of_pairwise_cons sorted member

theorem partSortAdd_isSome (single : part.offset = 0 → ∀ pi ∈ parts, 0 < pi.offset) :
    (partSortAdd part parts).isSome := by
  induction parts with
  | nil => rfl
  | cons pi parts ih =>
    rw [partSortAdd, if_neg]
    · split
      · rfl
      · rw [Option.isSome_map]
        exact ih fun zero other member => single zero other (List.mem_cons_of_mem _ member)
    · rintro ⟨same, zero⟩
      have positive := single (same.trans zero) pi List.mem_cons_self
      omega

theorem addAll_concat (parts : List PartInfo) (part : PartInfo) :
    addAll (parts ++ [part]) = (addAll parts).bind (partSortAdd part) := by
  rw [addAll, List.foldlM_append]
  simp only [List.foldlM_cons, List.foldlM_nil, bind_pure]
  rfl

theorem addAll_some {sorted : List PartInfo} (added : addAll parts = some sorted) :
    sorted = keyInsertAll PartInfo.offset parts ∧ PartsSorted sorted := by
  induction parts using List.reverseRecOn generalizing sorted with
  | nil =>
    obtain rfl : [] = sorted := by simpa [addAll] using added
    exact ⟨rfl, List.Pairwise.nil⟩
  | append_singleton parts part ih =>
    rw [addAll_concat] at added
    obtain ⟨before, found, inserted⟩ := Option.bind_eq_some_iff.mp added
    obtain ⟨same, order⟩ := ih found
    obtain ⟨last, result⟩ := partSortAdd_some order inserted
    exact ⟨by rw [last, same, keyInsertAll_concat], result⟩

theorem addAll_sorted (sorted : PartsSorted parts) :
    addAll parts = some (keyInsertAll PartInfo.offset parts) := by
  have success : (addAll parts).isSome := by
    induction parts using List.reverseRecOn with
    | nil => rfl
    | append_singleton parts part ih =>
      obtain ⟨before, _, order⟩ := List.pairwise_append.mp sorted
      obtain ⟨added, found⟩ := Option.isSome_iff_exists.mp (ih before)
      rw [addAll_concat, found]
      apply partSortAdd_isSome
      intro zero pi member
      rw [(addAll_some found).1, (keyInsertAll_perm parts).mem_iff] at member
      have behind := order pi member part List.mem_cons_self
      omega
  obtain ⟨added, found⟩ := Option.isSome_iff_exists.mp success
  rw [found, (addAll_some found).1]

theorem nextPart_some {offset : Nat} (bound : offset < 2 ^ 64)
    (found : nextPart table id offset p = some (part, rest)) : PartOk table id part := by
  obtain ⟨⟨fields, p₁⟩, parsed, found⟩ := Option.bind_eq_some_iff.mp found
  obtain ⟨accepted, validated, found⟩ := Option.bind_eq_some_iff.mp found
  obtain ⟨rfl, _⟩ := by simpa using found
  have read := partParse_some parsed
  refine (partValidate_some ?_ validated).2
  split
  · exact ⟨read.size, bound, read.name, read.flags⟩
  · exact read

theorem parseParts_some {turns offset : Nat} (bound : offset < 2 ^ 64)
    (parsed : parseParts table id offset p turns = some (parts, rest)) :
    ∀ part ∈ parts, PartOk table id part := by
  induction turns generalizing offset p parts with
  | zero =>
    obtain ⟨rfl, _⟩ := by simpa [parseParts] using parsed
    simp
  | succ turns ih =>
    unfold parseParts at parsed
    split at parsed
    next =>
      obtain ⟨rfl, _⟩ := by simpa using parsed
      simp
    next =>
      obtain ⟨rfl, _⟩ := by simpa using parsed
      simp
    next =>
      obtain ⟨⟨part, p₁⟩, found, parsed⟩ := Option.bind_eq_some_iff.mp parsed
      obtain ⟨⟨others, p₂⟩, behind, parsed⟩ := Option.bind_eq_some_iff.mp parsed
      obtain ⟨rfl, rfl⟩ := by simpa using parsed
      exact List.forall_mem_cons.mpr
        ⟨nextPart_some bound found, ih (Nat.mod_lt _ (by decide)) behind⟩

/-! ## Devices -/

/-- A device with its partitions. -/
structure DeviceOk (table : MtdTable) (ids : List Mtdids) (dev : MtdDevice) : Prop where
  known : idFindByMtdId ids dev.id.mtdId = some dev.id
  plain : ':' ∉ dev.id.mtdId
  parts : PartsOk table dev.id dev.parts

/-- Another type or another number. -/
def Mtdids.Apart (a b : Mtdids) : Prop := ¬(a.type = b.type ∧ a.num = b.num)

/-- Apart is apart both ways. -/
instance : Std.Symm Mtdids.Apart :=
  ⟨fun _ _ apart same => apart ⟨same.1.symm, same.2.symm⟩⟩

/-- The list of the devices. -/
structure DevicesOk (table : MtdTable) (ids : List Mtdids) (devices : List MtdDevice) : Prop where
  each : ∀ dev ∈ devices, DeviceOk table ids dev
  distinct : (devices.map MtdDevice.id).Pairwise Mtdids.Apart

theorem deviceParse_some {mtdDev : Text}
    (parsed : deviceParse table ids devices mtdDev = some (dev, p)) : DeviceOk table ids dev := by
  obtain ⟨⟨mtdId, p₁⟩, read, parsed⟩ := Option.bind_eq_some_iff.mp parsed
  obtain ⟨id, found, parsed⟩ := Option.bind_eq_some_iff.mp parsed
  obtain ⟨⟨parts, p₂⟩, each, parsed⟩ := Option.bind_eq_some_iff.mp parsed
  dsimp only at parsed
  split at parsed
  next => exact absurd parsed (by simp)
  next counted =>
    obtain ⟨sorted, added, parsed⟩ := Option.bind_eq_some_iff.mp parsed
    have same : dev = ⟨id, sorted⟩ := by
      split at parsed
      · exact (by simpa using parsed.symm : dev = _ ∧ _).1
      · exact (by simpa using parsed.symm : dev = _ ∧ _).1
      · exact absurd parsed (by simp)
    subst same
    have named : id.mtdId = mtdId := by simpa using List.find?_some found
    obtain ⟨inserted, order⟩ := addAll_some added
    have perm : sorted.Perm parts := inserted ▸ keyInsertAll_perm parts
    refine ⟨by rw [named]; exact found, by rw [named]; exact strchr_some read, ?_, order, ?_⟩
    · rintro rfl
      rw [← perm.length_eq] at counted
      exact counted rfl
    · intro part member
      refine parseParts_some ?_ each part (perm.mem_iff.mp member)
      split
      · decide
      split
      · decide
      · exact Nat.mod_lt _ (by decide)

theorem deviceFind_none {type num : Nat} (missing : deviceFind devices type num = none) :
    ∀ dev ∈ devices, ¬(dev.id.type = type ∧ dev.id.num = num) := by
  intro dev member
  simpa using List.find?_eq_none.mp missing dev member

theorem DevicesOk.concat (ok : DevicesOk table ids devices) (device : DeviceOk table ids dev)
    (missing : deviceFind devices dev.id.type dev.id.num = none) :
    DevicesOk table ids (devices ++ [dev]) := by
  constructor
  · intro other member
    rcases List.mem_append.mp member with member | single
    · exact ok.each other member
    · rwa [List.mem_singleton.mp single]
  · rw [List.map_append]
    refine List.pairwise_append.mpr ⟨ok.distinct, List.pairwise_singleton _ _, ?_⟩
    intro id member last single
    obtain ⟨other, inside, rfl⟩ := List.mem_map.mp member
    rw [List.mem_singleton.mp single]
    exact deviceFind_none missing other inside

theorem parseDevices_some {turns : Nat} {result : List MtdDevice} (ok : DevicesOk table ids devices)
    (parsed : parseDevices table ids devices p turns = some result) :
    DevicesOk table ids result := by
  induction turns generalizing devices p with
  | zero => rwa [← Option.some.inj parsed]
  | succ turns ih =>
    rw [parseDevices] at parsed
    split at parsed
    next => rwa [← Option.some.inj parsed]
    next =>
      obtain ⟨⟨dev, p₁⟩, read, parsed⟩ := Option.bind_eq_some_iff.mp parsed
      dsimp only at parsed
      split at parsed
      next => exact absurd parsed (by simp)
      next missing =>
        exact ih (ok.concat (deviceParse_some read) (by simpa using missing)) parsed

theorem devicesOk_nil : DevicesOk table ids [] :=
  ⟨fun _ member => absurd member List.not_mem_nil, List.Pairwise.nil⟩

theorem parseMtdparts_ok (table : MtdTable) (ids : List Mtdids) (mtdparts : Text) :
    DevicesOk table ids (parseMtdparts table ids mtdparts).2 := by
  rw [parseMtdparts]
  split
  next =>
    dsimp only
    split
    next => exact devicesOk_nil
    next =>
      split
      next => exact devicesOk_nil
      next parsed => exact parseDevices_some devicesOk_nil parsed
  next => exact devicesOk_nil

theorem DevicesOk.sameIds {others : List MtdDevice} (ok : DevicesOk table ids devices)
    (same : others.map MtdDevice.id = devices.map MtdDevice.id)
    (each : ∀ dev ∈ others, DeviceOk table ids dev) : DevicesOk table ids others :=
  ⟨each, same ▸ ok.distinct⟩

theorem DevicesOk.single (ok : DevicesOk table ids devices) {a b : MtdDevice} (left : a ∈ devices)
    (right : b ∈ devices) (type : a.id.type = b.id.type) (num : a.id.num = b.id.num) : a = b := by
  by_contra other
  have symmetric : Std.Symm fun a b : MtdDevice => a.id.Apart b.id := ⟨fun _ _ => symm⟩
  exact (List.pairwise_map.mp ok.distinct).forall left right other ⟨type, num⟩

theorem DeviceOk.withParts (ok : DeviceOk table ids dev) (accepted : PartsOk table dev.id parts) :
    DeviceOk table ids { dev with parts := parts } :=
  ⟨ok.known, ok.plain, accepted⟩

theorem PartOk.read (ok : PartOk table id part) : PartRead part :=
  ⟨by have := ok.fits; omega, by have := ok.fits; omega, ok.name, ok.flags⟩

theorem PartsOk.add {result : List PartInfo} (ok : PartsOk table id parts)
    (accepted : PartOk table id part) (added : partSortAdd part parts = some result) :
    PartsOk table id result := by
  obtain ⟨rfl, order⟩ := partSortAdd_some ok.sorted added
  have perm := List.perm_orderedInsert (fun a b : PartInfo => a.offset ≤ b.offset) part parts
  refine ⟨?_, order, fun other member => ?_⟩
  · intro empty
    have size := perm.length_eq
    rw [show parts.orderedInsert (fun a b => a.offset ≤ b.offset) part = [] from empty] at size
    exact absurd size (by simp)
  · rcases List.mem_cons.mp (perm.mem_iff.mp member) with rfl | member
    · exact accepted
    · exact ok.each other member

/-- `mtdparts add` keeps what holds of the devices. -/
theorem mtdpartsAdd_ok (ok : DevicesOk table ids devices) (tmpbuf : Text)
    : DevicesOk table ids (mtdpartsAdd table ids devices tmpbuf) := by
  rw [mtdpartsAdd]
  split
  next => exact ok
  next dev _ parsed =>
    have device := deviceParse_some parsed
    split
    next missing => exact ok.concat device missing
    next devTmp found =>
      have member : devTmp ∈ devices := List.mem_of_find?_eq_some found
      split
      next => exact ok
      next p validated =>
        obtain ⟨first, head, validated⟩ := Option.bind_eq_some_iff.mp validated
        have read := (device.parts.each first (List.mem_of_head? head)).read
        have accepted := (partValidate_some read validated).2
        split
        next => exact ok
        next parts added =>
          have merged := (ok.each devTmp member).parts.add accepted added
          apply ok.sameIds
          · rw [List.map_map]
            apply List.map_congr_left
            intro dev _
            dsimp only [Function.comp_apply]
            split <;> rfl
          · intro other changed
            obtain ⟨dev, inside, rfl⟩ := List.mem_map.mp changed
            split
            next same =>
              obtain rfl := ok.single inside member same.1 same.2
              exact (ok.each dev inside).withParts merged
            next => exact ok.each dev inside

/-- `part_del` keeps what holds of the devices. -/
theorem partDel_ok (ok : DevicesOk table ids devices) (d k : Nat) :
    DevicesOk table ids (partDel devices d k) := by
  rw [partDel]
  split
  next => exact ok
  next dev found =>
    have member : dev ∈ devices := List.mem_of_getElem? found
    split
    next => exact ok
    next inside =>
      split
      next =>
        have sublist : (devices.eraseIdx d).Sublist devices := List.eraseIdx_sublist ..
        exact ⟨fun other kept => ok.each other (sublist.mem kept),
          ok.distinct.sublist (sublist.map _)⟩
      next several =>
        have device := ok.each dev member
        have sublist : (dev.parts.eraseIdx k).Sublist dev.parts := List.eraseIdx_sublist ..
        have rest : PartsOk table dev.id (dev.parts.eraseIdx k) := by
          refine ⟨?_, device.parts.sorted.sublist sublist,
            fun part kept => device.parts.each part (sublist.mem kept)⟩
          intro empty
          have size := List.length_eraseIdx_of_lt (Nat.not_le.mp inside)
          rw [empty, List.length_nil] at size
          rw [MtdDevice.numParts, show dev.parts.length = 1 by omega] at several
          exact several rfl
        apply ok.sameIds
        · obtain ⟨within, rfl⟩ := List.getElem?_eq_some_iff.mp found
          rw [List.map_set]
          show (devices.map MtdDevice.id).set d devices[d].id = _
          rw [← List.getElem_map (h := by simpa using within) MtdDevice.id, List.set_getElem_self]
        · intro other changed
          rcases List.mem_or_eq_of_mem_set changed with kept | rfl
          · exact ok.each other kept
          · exact device.withParts rest

theorem Built.ok (built : Built table ids devices) :
    DevicesOk table ids devices := by
  induction built with
  | parse mtdparts => exact parseMtdparts_ok table ids mtdparts
  | add tmpbuf _ ih => exact mtdpartsAdd_ok ih tmpbuf
  | del d k _ ih => exact partDel_ok ih d k

end HrppBoot.Parts
