import HrppBoot.Parts.PartsText

/-!
# The list of devices is read back

Parsing the generated text gives every device back, but adds the partitions of a device one after
the other, each in front of those with the same offset. So the partitions that share an offset come
back in the other order.
-/

namespace HrppBoot.Parts

open HrppBoot.Lib

variable {table : MtdTable} {ids : List Mtdids}

/-- A device with its partitions inserted one after the other. -/
def MtdDevice.reread (dev : MtdDevice) : MtdDevice :=
  { dev with parts := keyInsertAll PartInfo.offset dev.parts }

/-- The partitions at one offset read the same backwards. -/
def SymmetricGroups (parts : List PartInfo) : Prop :=
  ∀ offset, (keyGroup PartInfo.offset offset parts).reverse = keyGroup PartInfo.offset offset parts

theorem reread_eq_iff {dev : MtdDevice} (sorted : PartsSorted dev.parts) :
    dev.reread = dev ↔ SymmetricGroups dev.parts := by
  rw [SymmetricGroups, ← keyInsertAll_eq_iff (PartsSorted.keySorted sorted)]
  constructor
  · intro same
    exact congrArg MtdDevice.parts same
  · intro same
    rw [MtdDevice.reread, same]

theorem symmetricGroups_of_apart {parts : List PartInfo}
    (apart : parts.Pairwise fun a b => a.offset ≠ b.offset) : SymmetricGroups parts := by
  intro offset
  induction parts with
  | nil => rfl
  | cons part parts ih =>
    by_cases same : part.offset = offset
    · have others : keyGroup PartInfo.offset offset parts = [] := by
        apply List.filter_eq_nil_iff.mpr
        intro other member
        have different := List.rel_of_pairwise_cons apart member
        simpa [same] using different.symm
      rw [group_cons_same same, others]
      rfl
    · rw [group_cons_other same]
      exact ih apart.of_cons

theorem partsText_length (prevPart : Option PartInfo) (parts : List PartInfo) :
    parts.length ≤ (partsText prevPart parts).length := by
  induction parts generalizing prevPart with
  | nil => exact Nat.zero_le _
  | cons part parts ih =>
    have positive := memsizeFormat_length part.size
    have rest := ih (some part)
    simp only [partsText, partText, List.length_append, List.length_cons]
    omega

variable {devices : List MtdDevice}

/-- A device is read back, with its partitions inserted one after the other. -/
theorem deviceParse_text {dev : MtdDevice} (ok : DeviceOk table ids dev)
    (least : ∀ part ∈ dev.parts, minPartSize ≤ part.size) (count : dev.parts.length < 2 ^ 16)
    (missing : deviceFind devices dev.id.type dev.id.num = none) {rest : Text}
    (ends : StartsIn [';'] rest) :
    deviceParse table ids devices (deviceText dev ++ rest) =
      if OnlyLastRemaining dev.parts then some (dev.reread, rest.drop 1) else none := by
  have enough : dev.parts.length ≤ (partsText none dev.parts ++ rest).length := by
    have parts := partsText_length none dev.parts
    rw [List.length_append]
    omega
  have parsed : parseParts table dev.id 0 (partsText none dev.parts ++ rest) _ = _ :=
    parseParts_text ok.parts.each least none ends enough
  have counted : dev.parts.length % 2 ^ 16 ≠ 0 := by
    rw [Nat.mod_eq_of_lt count]
    exact fun empty => ok.parts.nonempty (List.length_eq_zero_iff.mp empty)
  have identified : strchr ':' (deviceText dev ++ rest) =
      some (dev.id.mtdId, partsText none dev.parts ++ rest) := by
    rw [deviceText, List.append_assoc]
    exact strchr_text ok.plain _
  rw [deviceParse, identified]
  simp only [Option.bind_eq_bind, Option.bind_some, ok.known, missing]
  rw [parsed]
  split
  next only =>
    rw [Option.bind_some]
    dsimp only
    rw [if_neg counted, addAll_sorted ok.parts.sorted, Option.bind_some]
    cases rest with
    | nil => rfl
    | cons c rest =>
      obtain rfl : c = ';' := by simpa using ends c rfl
      rfl
  next => rfl

theorem deviceFind_apart {id : Mtdids} (apart : ∀ dev ∈ devices, dev.id.Apart id)
    : deviceFind devices id.type id.num = none :=
  List.find?_eq_none.mpr fun dev member => by simpa [Mtdids.Apart] using apart dev member

/-- The devices are read back one after the other, each with its partitions inserted one after the
other, unless one in front of another has the size that stands for all that remains. -/
theorem parseDevices_text {devices : List MtdDevice}
    (each : ∀ dev ∈ devices, DeviceOk table ids dev)
    (least : ∀ dev ∈ devices, ∀ part ∈ dev.parts, minPartSize ≤ part.size)
    (count : ∀ dev ∈ devices, dev.parts.length < 2 ^ 16) {before : List MtdDevice}
    (distinct : (before.map MtdDevice.id ++ devices.map MtdDevice.id).Pairwise Mtdids.Apart)
    {turns : Nat} (enough : devices.length ≤ turns) :
    parseDevices table ids before (devicesText devices) turns =
      if ∀ dev ∈ devices, OnlyLastRemaining dev.parts then
        some (before ++ devices.map MtdDevice.reread)
      else none := by
  induction devices generalizing before turns with
  | nil =>
    rw [if_pos fun _ member => absurd member List.not_mem_nil, List.map_nil, List.append_nil]
    cases turns with
    | zero => rfl
    | succ turns => rfl
  | cons dev devices ih =>
    obtain ⟨turns, rfl⟩ : ∃ t, turns = t + 1 := Nat.exists_eq_add_one.mpr (by simp at enough; omega)
    obtain ⟨ok, each⟩ := List.forall_mem_cons.mp each
    obtain ⟨large, least⟩ := List.forall_mem_cons.mp least
    obtain ⟨few, count⟩ := List.forall_mem_cons.mp count
    have missing : deviceFind before dev.id.type dev.id.num = none := by
      apply deviceFind_apart
      intro other member
      exact (List.pairwise_append.mp distinct).2.2 _ (List.mem_map_of_mem member) _
        List.mem_cons_self
    have ends : StartsIn [';'] (textIf (devices ≠ []) [';'] ++ devicesText devices) := by
      cases devices with
      | nil => exact fun _ head => absurd head (by simp [textIf, devicesText])
      | cons next devices =>
        intro c head
        obtain rfl : ';' = c := by simpa [textIf] using head
        decide
    have behind : (textIf (devices ≠ []) [';'] ++ devicesText devices).drop 1 =
        devicesText devices := by
      cases devices <;> rfl
    have nonempty : deviceText dev ++ (textIf (devices ≠ []) [';'] ++ devicesText devices) ≠ [] :=
      by simp [deviceText]
    rw [devicesText, parseDevices, if_neg nonempty, deviceParse_text ok large few missing ends,
      behind]
    by_cases only : OnlyLastRemaining dev.parts
    · rw [if_pos only]
      simp only [Option.bind_eq_bind, Option.bind_some]
      rw [if_neg (by simpa [MtdDevice.reread] using missing),
        ih each least count (by simpa [MtdDevice.reread] using distinct) (by simpa using enough)]
      simp only [List.forall_mem_cons, only, true_and, List.map_cons, List.append_assoc,
        List.singleton_append]
    · rw [if_neg only, if_neg fun all => only (all dev List.mem_cons_self)]
      rfl

theorem devicesText_length (devices : List MtdDevice) :
    devices.length ≤ (devicesText devices).length := by
  induction devices with
  | nil => exact Nat.zero_le _
  | cons dev devices ih =>
    simp only [devicesText, deviceText, List.length_append, List.length_cons]
    omega

theorem parseMtdparts_start (table : MtdTable) (ids : List Mtdids) {list : Text}
    (present : list ≠ []) :
    parseMtdparts table ids (mtdpartsText ++ list) =
      match parseDevices table ids [] list list.length with
      | none => (1, [])
      | some devices => (0, devices) := by
  have behind : (mtdpartsText ++ list).drop 9 = list := rfl
  rw [parseMtdparts, if_pos (List.prefix_append _ _), behind]
  exact if_neg present

theorem parseMtdparts_generate (built : Built table ids devices)
    (least : ∀ dev ∈ devices, ∀ part ∈ dev.parts, minPartSize ≤ part.size) {buflen : Nat}
    (positive : 0 < buflen) (room : buflen ≤ 2 ^ 16) {text : Text}
    (generated : generateMtdparts devices buflen = some text) :
    (parseMtdparts table ids text).2 =
      if ∀ dev ∈ devices, OnlyLastRemaining dev.parts then devices.map MtdDevice.reread
      else [] := by
  rcases List.eq_nil_or_concat devices with rfl | ⟨before, last, same⟩
  · obtain rfl : [] = text := by simpa [generateMtdparts] using generated
    simp [parseMtdparts, mtdpartsText]
  · have present : devices ≠ [] := by simp [same]
    obtain ⟨rfl, count⟩ := generateMtdparts_some present positive room generated
    have enough := devicesText_length devices
    have nonempty : devicesText devices ≠ [] := by
      intro empty
      rw [empty, List.length_nil, Nat.le_zero, List.length_eq_zero_iff] at enough
      exact present enough
    rw [parseMtdparts_start table ids nonempty,
      @parseDevices_text _ _ _ built.ok.each least count [] built.ok.distinct _ enough,
      List.nil_append]
    by_cases only : ∀ dev ∈ devices, OnlyLastRemaining dev.parts
    · rw [if_pos only, if_pos only]
    · rw [if_neg only, if_neg only]

/-- The devices come back if and only if in each device the partitions at one offset read the same
backwards, and only the last partition has the size that stands for all that remains. -/
theorem parseMtdparts_generate_iff {devices : List MtdDevice} (built : Built table ids devices)
    (least : ∀ dev ∈ devices, ∀ part ∈ dev.parts, minPartSize ≤ part.size) {buflen : Nat}
    (positive : 0 < buflen) (room : buflen ≤ 2 ^ 16) {text : Text}
    (generated : generateMtdparts devices buflen = some text) :
    (parseMtdparts table ids text).2 = devices ↔
      ∀ dev ∈ devices, SymmetricGroups dev.parts ∧ OnlyLastRemaining dev.parts := by
  rw [parseMtdparts_generate built least positive room generated]
  split
  next only =>
    have each : devices.map MtdDevice.reread = devices ↔ ∀ dev ∈ devices, dev.reread = dev := by
      conv_lhs => rw [← List.map_id devices, List.map_map]
      exact List.map_inj_left
    rw [each]
    constructor
    · intro same dev member
      exact ⟨(reread_eq_iff (built.ok.each dev member).parts.sorted).mp (same dev member),
        only dev member⟩
    · intro all dev member
      exact (reread_eq_iff (built.ok.each dev member).parts.sorted).mpr (all dev member).1
  next other =>
    constructor
    · rintro rfl
      exact absurd (fun _ member => absurd member List.not_mem_nil) other
    · intro all
      exact absurd (fun dev member => (all dev member).2) other

/-! ## Two partitions at one offset -/

/-- A flash of 16 MiB in blocks of 4 KiB. -/
def norTable : MtdTable := fun _ _ => some ⟨4096, []⟩

def norIds : List Mtdids := [⟨1, 0, 2 ^ 24, ['n']⟩]

/-- A variable with two partitions at 1 MiB. -/
def twiceText : Text := mtdpartsText ++
  ['n', ':', '4', 'k', '@', '1', 'm', '(', 'c', ')', ',', '4', 'k', '@', '1', 'm', '(', 'b', ')']

/-- The device that it describes: the second partition was put in front of the first one. -/
def twiceDevices : List MtdDevice :=
  [⟨⟨1, 0, 2 ^ 24, ['n']⟩, [⟨some ['b'], 4096, 2 ^ 20, 0⟩, ⟨some ['c'], 4096, 2 ^ 20, 0⟩]⟩]

/-- A variable with two partitions at different offsets, the second one read-only and without a
name. -/
def apartText : Text := mtdpartsText ++
  ['n', ':', '6', '4', 'k', '(', 'a', ')', ',', '4', 'k', '@', '1', 'm', 'r', 'o']

def apartDevices : List MtdDevice :=
  [⟨⟨1, 0, 2 ^ 24, ['n']⟩, [⟨some ['a'], 65536, 0, 0⟩, ⟨none, 4096, 2 ^ 20, 1⟩]⟩]

/-- The two partitions at 1 MiB come back in the other order. -/
theorem twice_other_order :
    ¬ ∀ (table : MtdTable) (ids : List Mtdids) (devices : List MtdDevice), Built table ids devices →
      (∀ dev ∈ devices, ∀ part ∈ dev.parts, minPartSize ≤ part.size) → ∀ text : Text,
        generateMtdparts devices mtdpartsMaxlen = some text →
          (parseMtdparts table ids text).2 = devices := by
  intro kept
  have parsed : (parseMtdparts norTable norIds twiceText).2 = twiceDevices := by decide +kernel
  have built : Built norTable norIds twiceDevices := parsed ▸ .parse twiceText
  have written : generateMtdparts twiceDevices mtdpartsMaxlen = some (mtdpartsText ++
    ['n', ':', '4', 'k', '@', '1', 'm', '(', 'b', ')', ',', '4', 'k', '@', '1', 'm', '(', 'c', ')'])
    := by decide
  exact absurd (kept norTable norIds twiceDevices built (by decide) _ written) (by decide)

/-- The two partitions at different offsets come back as they are. -/
theorem apart_come_back : (parseMtdparts norTable norIds apartText).2 = apartDevices := by
  have parsed : (parseMtdparts norTable norIds apartText).2 = apartDevices := by decide +kernel
  have built : Built norTable norIds apartDevices := parsed ▸ .parse apartText
  refine (parseMtdparts_generate_iff built (by decide) (by decide : 0 < mtdpartsMaxlen)
    (by decide) (by decide)).mpr ?_
  intro dev member
  obtain rfl := List.mem_singleton.mp member
  exact ⟨symmetricGroups_of_apart (by decide), by decide⟩

end HrppBoot.Parts
