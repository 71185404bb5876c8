import HrppBoot.Parts.Mtdparts
import Mathlib.Data.List.InsertIdx
import Mathlib.Data.List.Nodup

/-!
# The current partition

`part_sort_add` keeps the partitions of a device sorted, `part_del` and `device_del` take partitions
and devices out, and each of them moves the index of the current partition. A partition and a device
are told apart by their addresses. A run begins without devices; `device_parse` builds the devices
that `device_add` appends, and `chpart` makes any partition the current one.
-/

namespace HrppBoot.Parts

/-! ## Devices and their lists -/

/-- A `part_info` at its address. -/
structure Listed where
  key : Nat
  info : PartInfo

/-- An `mtd_device` at its address. -/
structure ListedDevice where
  key : Nat
  id : Mtdids
  numParts : UInt16
  parts : List Listed

/-- `devices`, and the current partition. -/
structure MtdState where
  devices : List ListedDevice
  currentMtdDev : Option Nat
  currentMtdPartnum : UInt8

def ListedDevice.mtdPartInfo (dev : ListedDevice) (partNum : Nat) : Option Listed :=
  if dev.numParts.toNat ≤ partNum then none else dev.parts[partNum]?

/-- The loop of `part_sort_add`: the list with the partition, and the partition that it was put in
front of; none where there is one at offset 0 already. -/
def insertPart (part : Listed) : List Listed → Option (List Listed × Option Listed)
  | [] => some ([part], none)
  | pi :: parts =>
    if part.info.offset = pi.info.offset ∧ pi.info.offset = 0 then none
    else if part.info.offset ≤ pi.info.offset then some (part :: pi :: parts, some pi)
    else (insertPart part parts).map fun found => (pi :: found.1, found.2)

/-- `current_mtd_partnum` behind an insertion. -/
def shiftUp (partnum : UInt8) : (currPi pi : Option Listed) → UInt8
  | some currPi, some pi => if pi.info.offset ≤ currPi.info.offset then partnum + 1 else partnum
  | _, _ => partnum

def ListedDevice.added (dev : ListedDevice) (parts : List Listed) : ListedDevice :=
  { dev with parts := parts, numParts := dev.numParts + 1 }

/-- `part_sort_add` for a device, with the index of the current partition, where that is one of the
device. -/
def ListedDevice.partSortAdd (part : Listed) (partnum : Option UInt8) (dev : ListedDevice) :
    Option (ListedDevice × Option UInt8) :=
  match dev.parts with
  | [] => some (dev.added [part], partnum)
  | pi :: parts =>
    let currPi := partnum.bind fun n => dev.mtdPartInfo n.toNat
    (insertPart part (pi :: parts)).map fun found =>
      (dev.added found.1, partnum.map fun n => shiftUp n currPi found.2)

/-- The loop at the end of `device_parse`. -/
def ListedDevice.addParts (dev : ListedDevice) (parts : List Listed) : Option ListedDevice :=
  parts.foldlM (fun dev part => (dev.partSortAdd part none).map Prod.fst) dev

/-- `current_mtd_partnum` behind a deletion in the device. -/
def shiftDown (partnum : UInt8) (part : Listed) : Option Listed → UInt8
  | none => partnum
  | some currPi =>
    if currPi.key = part.key then 0
    else if part.info.offset ≤ currPi.info.offset then partnum - 1
    else partnum

namespace MtdState

/-- The index of the current partition, where that is one of the device. -/
def partnumOf (s : MtdState) (dev : ListedDevice) : Option UInt8 :=
  if s.currentMtdDev = some dev.key then some s.currentMtdPartnum else none

def deviceAdd (s : MtdState) (dev : ListedDevice) : MtdState :=
  if s.devices = [] then ⟨[dev], some dev.key, 0⟩
  else { s with devices := s.devices ++ [dev] }

/-- `part_add`, to a device by its number in the list. -/
def partAdd (table : MtdTable) (s : MtdState) (d : Nat) (part : Listed) : MtdState :=
  match s.devices[d]? with
  | none => s
  | some dev =>
    match partValidate table dev.id part.info with
    | none => s
    | some info =>
      match dev.partSortAdd ⟨part.key, info⟩ (s.partnumOf dev) with
      | none => s
      | some (dev, partnum) =>
        ⟨s.devices.set d dev, s.currentMtdDev, partnum.getD s.currentMtdPartnum⟩

/-- `device_del`, of a device by its number in the list. -/
def deviceDel (s : MtdState) (d : Nat) (dev : ListedDevice) : MtdState :=
  let devices := s.devices.eraseIdx d
  if s.currentMtdDev = some dev.key then
    match devices with
    | [] => ⟨[], none, s.currentMtdPartnum⟩
    | first :: rest => ⟨first :: rest, some first.key, 0⟩
  else { s with devices := devices }

/-- `part_del`, of a partition of a device by their numbers in the lists. -/
def partDel (s : MtdState) (d k : Nat) : MtdState :=
  match s.devices[d]? with
  | none => s
  | some dev =>
    match dev.parts[k]? with
    | none => s
    | some part =>
      if dev.numParts = 1 then s.deviceDel d dev
      else
        let left := { dev with parts := dev.parts.eraseIdx k, numParts := dev.numParts - 1 }
        if s.currentMtdDev = some dev.key then
          ⟨s.devices.set d left, s.currentMtdDev, shiftDown s.currentMtdPartnum part
            (dev.mtdPartInfo s.currentMtdPartnum.toNat)⟩
        else { s with devices := s.devices.set d left }

/-- `chpart`, with the number of a device in the list. -/
def chpart (s : MtdState) (d : Nat) (pnum : UInt8) : MtdState :=
  match s.devices[d]? with
  | none => s
  | some dev =>
    if (dev.mtdPartInfo pnum.toNat).isSome then ⟨s.devices, some dev.key, pnum⟩ else s

/-- `mtd_devices_init` -/
def init : MtdState := ⟨[], none, 0⟩

end MtdState

inductive MtdOp where
  /-- `device_parse` and `device_add` of a device at an address. -/
  | addDevice (key : Nat) (id : Mtdids) (parts : List Listed)
  | add (d : Nat) (part : Listed)
  /-- `part_del` -/
  | del (d k : Nat)
  | chpart (d : Nat) (pnum : UInt8)

/-- The device that `device_parse` builds. -/
def deviceOf (key : Nat) (id : Mtdids) (parts : List Listed) : Option ListedDevice :=
  if parts = [] then none else (ListedDevice.mk key id 0 []).addParts parts

def MtdState.perform (table : MtdTable) (s : MtdState) : MtdOp → MtdState
  | .addDevice key id parts =>
    match deviceOf key id parts with
    | none => s
    | some dev => s.deviceAdd dev
  | .add d part => s.partAdd table d part
  | .del d k => s.partDel d k
  | .chpart d pnum => s.chpart d pnum

/-! ## What is wanted -/

def MtdState.current (s : MtdState) : Option Listed := do
  let key ← s.currentMtdDev
  let dev ← s.devices.find? fun dev => dev.key = key
  dev.parts[s.currentMtdPartnum.toNat]?

/-- Partitions are sorted by their offsets. -/
def SortedParts (parts : List Listed) : Prop :=
  parts.Pairwise fun left right => left.info.offset ≤ right.info.offset

/-- The list of a device is sorted and counted. -/
structure ListedDevice.Ordered (dev : ListedDevice) : Prop where
  sorted : SortedParts dev.parts
  /-- `num_parts` is the length of the list. -/
  counted : dev.numParts.toNat = dev.parts.length
  apart : (dev.parts.map Listed.key).Nodup

/-- The list of a device is as it is wanted. -/
structure ListedDevice.Sound (dev : ListedDevice) : Prop extends dev.Ordered where
  nonempty : dev.parts ≠ []

/-- The lists are as they are wanted, and there is a current partition where there are devices. -/
structure MtdState.Sound (s : MtdState) : Prop where
  devices : ∀ dev ∈ s.devices, dev.Sound
  apart : (s.devices.map ListedDevice.key).Nodup
  current : s.devices ≠ [] → s.current.isSome
  unset : s.devices = [] → s.currentMtdDev = none

/-- The first partition of the first device. -/
def firstPart (devices : List ListedDevice) : Option Listed :=
  devices.head?.bind fun dev => dev.parts.head?

/-- The current partition behind an operation: the one that was current, unless it is deleted or
another is chosen. -/
def MtdState.wanted (s : MtdState) : MtdOp → Option Listed
  | .addDevice key id parts =>
    if s.devices = [] then firstPart (deviceOf key id parts).toList else s.current
  | .add _ _ => s.current
  | .del d k =>
    match s.devices[d]? with
    | none => s.current
    | some dev =>
      if s.currentMtdDev = some dev.key ∧ s.currentMtdPartnum.toNat = k then
        if dev.parts.length = 1 then firstPart (s.devices.eraseIdx d)
        else (dev.parts.eraseIdx k).head?
      else s.current
  | .chpart d pnum =>
    match (s.devices[d]?).bind fun dev => dev.parts[pnum.toNat]? with
    | none => s.current
    | some part => some part

/-- New devices and partitions get addresses of their own. -/
def MtdState.Fresh (s : MtdState) : MtdOp → Prop
  | .addDevice key _ parts => (∀ dev ∈ s.devices, dev.key ≠ key) ∧ (parts.map Listed.key).Nodup
  | .add _ part => ∀ dev ∈ s.devices, ∀ listed ∈ dev.parts, listed.key ≠ part.key
  | .del _ _ => True
  | .chpart _ _ => True

/-- A partition is taken into the list of a device: it is valid, and not a second one at offset
0. -/
def ListedDevice.Takes (table : MtdTable) (dev : ListedDevice) (part info : PartInfo) : Prop :=
  partValidate table dev.id part = some info ∧
    ¬(info.offset = 0 ∧ ∃ listed ∈ dev.parts, listed.info.offset = 0)

/-- The counters have room, and what is deleted is not behind the current partition at the same
offset. -/
def MtdState.Allowed (table : MtdTable) (s : MtdState) : MtdOp → Prop
  | .addDevice key id parts => deviceOf key id parts ≠ none → parts.length < 2 ^ 16
  | .add d part => ∀ dev info, s.devices[d]? = some dev → dev.Takes table part.info info →
      dev.parts.length + 1 < 2 ^ 16 ∧
        ∀ curr, s.currentMtdDev = some dev.key → s.current = some curr →
          info.offset ≤ curr.info.offset → s.currentMtdPartnum.toNat + 1 < 2 ^ 8
  | .del d k => ∀ dev part curr, s.devices[d]? = some dev → dev.parts[k]? = some part →
      s.currentMtdDev = some dev.key → s.current = some curr → s.currentMtdPartnum.toNat < k →
        part.info.offset ≠ curr.info.offset
  | .chpart _ _ => True

/-- Every operation of a run is fresh and allowed. -/
def Meets (table : MtdTable) : MtdState → List MtdOp → Prop
  | _, [] => True
  | s, op :: ops => s.Fresh op ∧ s.Allowed table op ∧ Meets table (s.perform table op) ops

/-- Every state of a run is sound, and every operation leaves the wanted partition current. -/
def Right (table : MtdTable) : MtdState → List MtdOp → Prop
  | s, [] => s.Sound
  | s, op :: ops =>
    s.Sound ∧ (s.perform table op).current = s.wanted op ∧ Right table (s.perform table op) ops

/-! ## Insertion -/

variable {parts found : List Listed} {part pi : Listed} {next : Option Listed}

theorem insertPart_eq_some (inserted : insertPart part parts = some (found, next)) :
    ∃ front back, parts = front ++ back ∧ found = front ++ part :: back ∧ next = back.head? ∧
      (∀ listed ∈ front, listed.info.offset < part.info.offset) ∧
      (∀ listed ∈ back.head?, part.info.offset ≤ listed.info.offset) := by
  induction parts generalizing found with
  | nil =>
    cases inserted
    exact ⟨[], [], rfl, rfl, rfl, fun listed none => absurd none List.not_mem_nil,
      fun listed none => absurd none (Option.not_mem_none _)⟩
  | cons pi parts ih =>
    rw [insertPart] at inserted
    split at inserted
    · cases inserted
    · split at inserted
      · next before =>
        cases inserted
        refine ⟨[], pi :: parts, rfl, rfl, rfl, fun listed none => absurd none List.not_mem_nil, ?_⟩
        rintro listed ⟨⟩
        exact before
      · next behind =>
        obtain ⟨⟨rest, later⟩, inside, same⟩ := Option.map_eq_some_iff.mp inserted
        cases same
        obtain ⟨front, back, rfl, rfl, first, below, above⟩ := ih inside
        refine ⟨pi :: front, back, rfl, rfl, first, ?_, above⟩
        exact List.forall_mem_cons.mpr ⟨Nat.lt_of_not_le behind, below⟩

theorem insertPart_refused (sorted : SortedParts parts) (zero : part.info.offset = 0)
    (another : ∃ listed ∈ parts, listed.info.offset = 0) : insertPart part parts = none := by
  obtain ⟨listed, member, here⟩ := another
  cases parts with
  | nil => cases member
  | cons pi parts =>
    have first : pi.info.offset = 0 := by
      rcases List.mem_cons.mp member with rfl | later
      · exact here
      · have least := (List.pairwise_cons.mp sorted).1 listed later
        omega
    rw [insertPart, if_pos ⟨zero.trans first.symm, first⟩]

/-- The index of a partition behind an insertion. -/
theorem getElem?_shiftUp {front back : List Listed} {n : UInt8} {curr : Listed}
    (sorted : SortedParts (front ++ back))
    (below : ∀ listed ∈ front, listed.info.offset < part.info.offset)
    (above : ∀ listed ∈ back.head?, part.info.offset ≤ listed.info.offset)
    (here : (front ++ back)[n.toNat]? = some curr)
    (room : part.info.offset ≤ curr.info.offset → n.toNat + 1 < 2 ^ 8) :
    (front ++ part :: back)[(shiftUp n (some curr) back.head?).toNat]? = some curr := by
  obtain ⟨-, sortedBack, across⟩ := List.pairwise_append.mp sorted
  by_cases early : n.toNat < front.length
  · rw [List.getElem?_append_left early] at here
    have low := below curr (List.mem_of_getElem? here)
    have stays : shiftUp n (some curr) back.head? = n := by
      cases back with
      | nil => rfl
      | cons first back =>
        have high := above first rfl
        exact if_neg (by omega)
    rw [stays, List.getElem?_append_left early, here]
  · rw [List.getElem?_append_right (by omega)] at here
    cases back with
    | nil => cases here
    | cons first back =>
      have high := above first rfl
      have least : first.info.offset ≤ curr.info.offset := by
        rcases List.mem_cons.mp (List.mem_of_getElem? here) with rfl | later
        · exact Nat.le_refl _
        · exact (List.pairwise_cons.mp sortedBack).1 curr later
      have moves : shiftUp n (some curr) (first :: back).head? = n + 1 := if_pos least
      have fits := room (by omega)
      have index : (n + 1).toNat = n.toNat + 1 := by
        rw [UInt8.toNat_add, UInt8.toNat_one, Nat.mod_eq_of_lt (by omega)]
      rw [moves, index, List.getElem?_append_right (by omega),
        show n.toNat + 1 - front.length = n.toNat - front.length + 1 by omega,
        List.getElem?_cons_succ, here]

/-- A list with one more partition is ordered. -/
theorem ListedDevice.Ordered.added {dev : ListedDevice} {front back : List Listed}
    (ordered : dev.Ordered) (split : dev.parts = front ++ back)
    (below : ∀ listed ∈ front, listed.info.offset < part.info.offset)
    (above : ∀ listed ∈ back.head?, part.info.offset ≤ listed.info.offset)
    (fresh : ∀ listed ∈ dev.parts, listed.key ≠ part.key) (room : dev.parts.length + 1 < 2 ^ 16)
    : (dev.added (front ++ part :: back)).Ordered := by
  have sorted := ordered.sorted
  rw [split, SortedParts, List.pairwise_append] at sorted
  obtain ⟨sortedFront, sortedBack, across⟩ := sorted
  have behind : ∀ listed ∈ back, part.info.offset ≤ listed.info.offset := by
    cases back with
    | nil => exact fun listed none => absurd none List.not_mem_nil
    | cons first back =>
      have least := above first rfl
      refine List.forall_mem_cons.mpr ⟨least, fun listed member => ?_⟩
      exact Nat.le_trans least ((List.pairwise_cons.mp sortedBack).1 listed member)
  constructor
  · refine List.pairwise_append.mpr ⟨sortedFront, List.pairwise_cons.mpr ⟨behind, sortedBack⟩, ?_⟩
    intro listed member
    refine List.forall_mem_cons.mpr ⟨Nat.le_of_lt (below listed member), across listed member⟩
  · have length := congrArg List.length split
    rw [List.length_append] at length
    have counted := ordered.counted
    simp only [ListedDevice.added, UInt16.toNat_add, UInt16.toNat_one, List.length_append,
      List.length_cons]
    omega
  · have apart := ordered.apart
    rw [split, List.map_append] at apart
    show ((front ++ part :: back).map Listed.key).Nodup
    rw [List.map_append, List.map_cons, List.nodup_middle, List.nodup_cons]
    refine ⟨?_, apart⟩
    rw [← List.map_append, ← split]
    intro member
    obtain ⟨listed, there, same⟩ := List.mem_map.mp member
    exact fresh listed there same

/-- What `part_sort_add` does to an ordered list, and to the index of the current partition. -/
theorem partSortAdd_eq_some {dev after : ListedDevice} {partnum moved : Option UInt8}
    (ordered : dev.Ordered) (fresh : ∀ listed ∈ dev.parts, listed.key ≠ part.key)
    (room : dev.parts.length + 1 < 2 ^ 16)
    (added : dev.partSortAdd part partnum = some (after, moved)) :
    after.Sound ∧ after.key = dev.key ∧ after.parts.length = dev.parts.length + 1 ∧
      (∀ listed ∈ after.parts, listed = part ∨ listed ∈ dev.parts) ∧
      (partnum = none → moved = none) ∧
      ∀ n curr, partnum = some n → dev.parts[n.toNat]? = some curr →
        (part.info.offset ≤ curr.info.offset → n.toNat + 1 < 2 ^ 8) →
          ∃ m, moved = some m ∧ after.parts[m.toNat]? = some curr := by
  rw [ListedDevice.partSortAdd] at added
  split at added
  · next empty =>
    cases added
    have first := @ListedDevice.Ordered.added part dev [] [] ordered empty
      (fun listed none => absurd none List.not_mem_nil)
      (fun listed none => absurd none (Option.not_mem_none _)) fresh room
    refine ⟨⟨first, List.cons_ne_nil _ _⟩, rfl, ?_, ?_, id, ?_⟩
    · rw [empty]
      rfl
    · exact fun listed member => .inl (List.mem_singleton.mp member)
    · intro n curr _ here
      rw [empty] at here
      cases here
  · next pi rest whole =>
    obtain ⟨⟨found, next⟩, inserted, same⟩ := Option.map_eq_some_iff.mp added
    cases same
    obtain ⟨front, back, split, rfl, rfl, below, above⟩ := insertPart_eq_some inserted
    rw [split] at whole
    refine ⟨⟨ordered.added whole below above fresh room, ?_⟩, rfl, ?_, ?_, ?_, ?_⟩
    · exact List.append_ne_nil_of_right_ne_nil _ (List.cons_ne_nil _ _)
    · rw [whole]
      exact List.length_append.trans (by rw [List.length_append, List.length_cons]; omega)
    · intro listed member
      rw [whole]
      rcases List.mem_append.mp member with early | late
      · exact .inr (List.mem_append_left _ early)
      · rcases List.mem_cons.mp late with rfl | later
        · exact .inl rfl
        · exact .inr (List.mem_append_right _ later)
    · rintro rfl
      rfl
    · rintro n curr rfl here fits
      have inside : n.toNat < dev.parts.length := (List.getElem?_eq_some_iff.mp here).1
      have sorted := ordered.sorted
      have found : dev.mtdPartInfo n.toNat = some curr := by
        rw [ListedDevice.mtdPartInfo, if_neg (by rw [ordered.counted]; omega), here]
      rw [Option.bind_some, found]
      rw [whole] at sorted here
      exact ⟨_, rfl, getElem?_shiftUp sorted below above here fits⟩

/-- The device that `device_parse` builds. -/
theorem addParts_sound {dev after : ListedDevice} (ordered : dev.Ordered)
    (apart : ((dev.parts ++ parts).map Listed.key).Nodup)
    (room : dev.parts.length + parts.length < 2 ^ 16) (added : dev.addParts parts = some after) :
    after.Ordered ∧ after.key = dev.key ∧
      after.parts.length = dev.parts.length + parts.length := by
  induction parts generalizing dev with
  | nil =>
    cases added
    exact ⟨ordered, rfl, rfl⟩
  | cons part parts ih =>
    rw [ListedDevice.addParts, List.foldlM_cons] at added
    obtain ⟨mid, turn, later⟩ := Option.bind_eq_some_iff.mp added
    obtain ⟨⟨mid, moved⟩, first, same⟩ := Option.map_eq_some_iff.mp turn
    cases same
    rw [List.map_append, List.map_cons, List.nodup_middle, List.nodup_cons, ← List.map_append]
      at apart
    rw [List.length_cons] at room ⊢
    have fresh : ∀ listed ∈ dev.parts, listed.key ≠ part.key := by
      intro listed member same
      exact apart.1 (List.mem_map.mpr ⟨listed, List.mem_append_left _ member, same⟩)
    obtain ⟨sound, key, length, members, -⟩ := partSortAdd_eq_some ordered fresh (by omega) first
    have next : ((mid.parts ++ parts).map Listed.key).Nodup := by
      rw [List.map_append, List.nodup_append] at apart ⊢
      obtain ⟨out, front, back, across⟩ := apart
      refine ⟨sound.apart, back, ?_⟩
      rintro a inFront b inBack rfl
      obtain ⟨listed, there, rfl⟩ := List.mem_map.mp inFront
      rcases members listed there with rfl | older
      · exact out (List.mem_append_right _ inBack)
      · exact across _ (List.mem_map_of_mem older) _ inBack rfl
    obtain ⟨done, sameKey, total⟩ := ih sound.toOrdered next (by omega) later
    exact ⟨done, sameKey.trans key, by omega⟩

theorem deviceOf_sound {key : Nat} {id : Mtdids} {dev : ListedDevice}
    (apart : (parts.map Listed.key).Nodup) (room : parts.length < 2 ^ 16)
    (built : deviceOf key id parts = some dev) : dev.Sound ∧ dev.key = key := by
  rw [deviceOf] at built
  split at built
  · cases built
  · next nonempty =>
    have start : (ListedDevice.mk key id 0 []).Ordered := ⟨List.Pairwise.nil, rfl, List.nodup_nil⟩
    obtain ⟨ordered, same, length⟩ :=
      addParts_sound start apart (show 0 + parts.length < 2 ^ 16 by omega) built
    refine ⟨⟨ordered, fun empty => nonempty ?_⟩, same⟩
    rw [empty] at length
    exact List.length_eq_zero_iff.mp (Nat.zero_add parts.length ▸ length.symm)

/-! ## Deletion -/

variable {k : Nat}

theorem getElem?_shiftDown {n : UInt8} {curr : Listed} (sorted : SortedParts parts)
    (apart : (parts.map Listed.key).Nodup) (there : parts[k]? = some part)
    (here : parts[n.toNat]? = some curr) (other : n.toNat ≠ k)
    (distinct : n.toNat < k → part.info.offset ≠ curr.info.offset) :
    (parts.eraseIdx k)[(shiftDown n part (some curr)).toNat]? = some curr := by
  obtain ⟨inside, atPart⟩ := List.getElem?_eq_some_iff.mp there
  obtain ⟨within, atCurr⟩ := List.getElem?_eq_some_iff.mp here
  have keys : curr.key ≠ part.key := by
    intro same
    obtain rfl := List.inj_on_of_nodup_map apart (List.mem_of_getElem? here)
      (List.mem_of_getElem? there) same
    exact other ((List.getElem?_inj within (List.Nodup.of_map _ apart)).mp
      (here.trans there.symm))
  have ordered (i j : Nat) (less : i < j) (low : i < parts.length) (high : j < parts.length) :
      parts[i].info.offset ≤ parts[j].info.offset :=
    List.pairwise_iff_getElem.mp sorted i j low high less
  rw [shiftDown, if_neg keys]
  by_cases behind : n.toNat < k
  · have least := ordered n.toNat k behind within inside
    rw [atCurr, atPart] at least
    have above := distinct behind
    rw [if_neg (by omega), List.getElem?_eraseIdx_of_lt behind, here]
  · have least := ordered k n.toNat (by omega) inside within
    rw [atCurr, atPart] at least
    have index : (n - 1).toNat = n.toNat - 1 := by
      have small := n.toNat_lt
      rw [UInt8.toNat_sub, UInt8.toNat_one]
      omega
    rw [if_pos least, index, List.getElem?_eraseIdx_of_ge (by omega),
      show n.toNat - 1 + 1 = n.toNat by omega, here]

theorem ListedDevice.Ordered.erase {dev : ListedDevice} (ordered : dev.Ordered)
    (inside : k < dev.parts.length) : ({ dev with
      parts := dev.parts.eraseIdx k, numParts := dev.numParts - 1 } : ListedDevice).Ordered := by
  constructor
  · exact ordered.sorted.eraseIdx k
  · have counted := ordered.counted
    have small := dev.numParts.toNat_lt
    rw [List.length_eraseIdx_of_lt inside]
    show (dev.numParts - 1).toNat = dev.parts.length - 1
    rw [UInt16.toNat_sub, UInt16.toNat_one]
    omega
  · show ((dev.parts.eraseIdx k).map Listed.key).Nodup
    rw [← List.eraseIdx_map]
    exact ordered.apart.eraseIdx k

/-! ## The current partition -/

variable {s : MtdState} {dev : ListedDevice}

theorem current_of_mem (apart : (s.devices.map ListedDevice.key).Nodup) (member : dev ∈ s.devices)
    (here : s.currentMtdDev = some dev.key) :
    s.current = dev.parts[s.currentMtdPartnum.toNat]? := by
  have found : (s.devices.find? fun other => decide (other.key = dev.key)) = some dev := by
    cases search : s.devices.find? fun other => decide (other.key = dev.key) with
    | none =>
      have missing := List.find?_eq_none.mp search dev member
      simp at missing
    | some other =>
      have same := List.find?_some search
      rw [decide_eq_true_eq] at same
      rw [List.inj_on_of_nodup_map apart (List.mem_of_find?_eq_some search) member same]
  rw [MtdState.current, here]
  simp only [Option.bind_eq_bind, Option.bind_some, found]

theorem MtdState.Sound.exists_current (sound : s.Sound) (some_device : s.devices ≠ []) :
    ∃ dev ∈ s.devices, s.currentMtdDev = some dev.key ∧
      ∃ curr, s.current = some curr ∧ dev.parts[s.currentMtdPartnum.toNat]? = some curr := by
  obtain ⟨curr, isCurrent⟩ := Option.isSome_iff_exists.mp (sound.current some_device)
  have steps := isCurrent
  rw [MtdState.current] at steps
  obtain ⟨key, chosen, steps⟩ := Option.bind_eq_some_iff.mp steps
  obtain ⟨dev, search, here⟩ := Option.bind_eq_some_iff.mp steps
  have same := List.find?_some search
  rw [decide_eq_true_eq] at same
  exact ⟨dev, List.mem_of_find?_eq_some search, same ▸ chosen, curr, isCurrent, here⟩

section Replace

variable {after : ListedDevice} {d : Nat} {m : UInt8}

theorem mem_set_of_ne {other : ListedDevice} (there : s.devices[d]? = some dev)
    (member : other ∈ s.devices) (different : other.key ≠ dev.key) :
    other ∈ s.devices.set d after := by
  obtain ⟨e, inside, here⟩ := List.mem_iff_getElem.mp member
  have apart : e ≠ d := by
    rintro rfl
    rw [List.getElem?_eq_getElem inside, here] at there
    exact different (congrArg ListedDevice.key (Option.some.inj there))
  refine List.mem_of_getElem? (i := e) ?_
  rw [List.getElem?_set_ne (Ne.symm apart), List.getElem?_eq_getElem inside, here]

theorem map_key_set (there : s.devices[d]? = some dev) (same : after.key = dev.key) :
    (s.devices.set d after).map ListedDevice.key = s.devices.map ListedDevice.key := by
  obtain ⟨inside, rfl⟩ := List.getElem?_eq_some_iff.mp there
  rw [List.map_set, same]
  refine List.ext_getElem (by simp) fun i left right => ?_
  rw [List.getElem_set]
  split
  · next here =>
    subst here
    rw [List.getElem_map]
  · rfl

theorem current_set (sound : s.Sound) (there : s.devices[d]? = some dev)
    (same : after.key = dev.key) (here : s.currentMtdDev = some dev.key) :
    (MtdState.mk (s.devices.set d after) s.currentMtdDev m).current = after.parts[m.toNat]? := by
  obtain ⟨inside, -⟩ := List.getElem?_eq_some_iff.mp there
  refine current_of_mem ?_ (List.mem_set inside after) (same ▸ here)
  rw [map_key_set there same]
  exact sound.apart

theorem current_set_other (sound : s.Sound) (there : s.devices[d]? = some dev)
    (same : after.key = dev.key) (other : s.currentMtdDev ≠ some dev.key) :
    (MtdState.mk (s.devices.set d after) s.currentMtdDev s.currentMtdPartnum).current =
      s.current := by
  have nonempty : s.devices ≠ [] := by
    intro none
    rw [none] at there
    cases there
  obtain ⟨home, member, chosen, curr, isCurrent, here⟩ := sound.exists_current nonempty
  have different : home.key ≠ dev.key := fun equal => other (equal ▸ chosen)
  rw [isCurrent, ← here]
  refine current_of_mem ?_ (mem_set_of_ne there member different) chosen
  rw [map_key_set there same]
  exact sound.apart

theorem set_sound (sound : s.Sound) (there : s.devices[d]? = some dev) (afterSound : after.Sound)
    (same : after.key = dev.key)
    (isCurrent : (MtdState.mk (s.devices.set d after) s.currentMtdDev m).current.isSome) :
    (MtdState.mk (s.devices.set d after) s.currentMtdDev m).Sound := by
  constructor
  · intro other member
    rcases List.mem_or_eq_of_mem_set member with older | rfl
    · exact sound.devices other older
    · exact afterSound
  · show ((s.devices.set d after).map ListedDevice.key).Nodup
    rw [map_key_set there same]
    exact sound.apart
  · exact fun _ => isCurrent
  · intro none
    obtain ⟨inside, -⟩ := List.getElem?_eq_some_iff.mp there
    have length := congrArg List.length (show s.devices.set d after = [] from none)
    rw [List.length_set, List.length_nil] at length
    omega

end Replace

/-! ## The operations -/

variable {table : MtdTable}

theorem MtdState.Sound.current_eq (sound : s.Sound) (member : dev ∈ s.devices)
    (here : s.currentMtdDev = some dev.key) :
    ∃ curr, s.current = some curr ∧ dev.parts[s.currentMtdPartnum.toNat]? = some curr := by
  obtain ⟨curr, isCurrent⟩ :=
    Option.isSome_iff_exists.mp (sound.current (List.ne_nil_of_mem member))
  exact ⟨curr, isCurrent, (current_of_mem sound.apart member here).symm.trans isCurrent⟩

/-- `part_add` keeps the current partition. -/
theorem partAdd_right {d : Nat} (sound : s.Sound) (fresh : s.Fresh (.add d part))
    (allowed : s.Allowed table (.add d part)) :
    (s.partAdd table d part).Sound ∧ (s.partAdd table d part).current = s.current := by
  rw [MtdState.partAdd]
  split
  · exact ⟨sound, rfl⟩
  next dev there =>
  split
  · exact ⟨sound, rfl⟩
  next info valid =>
  split
  · exact ⟨sound, rfl⟩
  next after partnum added =>
  have member := List.mem_of_getElem? there
  have before := sound.devices dev member
  have takes : dev.Takes table part.info info := by
    refine ⟨valid, ?_⟩
    rintro ⟨zero, another⟩
    cases parts : dev.parts with
    | nil => exact before.nonempty parts
    | cons pi rest =>
      have refused := @insertPart_refused dev.parts ⟨part.key, info⟩ before.sorted zero another
      rw [parts] at refused
      rw [ListedDevice.partSortAdd, parts] at added
      dsimp only at added
      rw [refused] at added
      cases added
  obtain ⟨room, fits⟩ := allowed dev info there takes
  obtain ⟨afterSound, same, -, -, none, kept⟩ := @partSortAdd_eq_some ⟨part.key, info⟩ dev after _ _
    before.toOrdered (fresh dev member) room added
  by_cases here : s.currentMtdDev = some dev.key
  · obtain ⟨curr, isCurrent, atIndex⟩ := sound.current_eq member here
    obtain ⟨m, rfl, atMoved⟩ := kept s.currentMtdPartnum curr (if_pos here) atIndex
      (fits curr here isCurrent)
    have now := @current_set s dev after d m sound there same here
    rw [Option.getD_some]
    refine ⟨set_sound sound there afterSound same ?_, ?_⟩
    · rw [now, atMoved]
      rfl
    · rw [now, atMoved, isCurrent]
  · obtain rfl := none (if_neg here)
    have now := @current_set_other s dev after d sound there same here
    rw [Option.getD_none]
    refine ⟨set_sound sound there afterSound same ?_, now⟩
    rw [now]
    exact sound.current (List.ne_nil_of_mem member)

theorem chpart_right {d : Nat} {pnum : UInt8} (sound : s.Sound) :
    (s.chpart d pnum).Sound ∧ (s.chpart d pnum).current = s.wanted (.chpart d pnum) := by
  rw [MtdState.chpart, MtdState.wanted]
  cases there : s.devices[d]? with
  | none => exact ⟨sound, rfl⟩
  | some dev =>
    have member := List.mem_of_getElem? there
    have counted := (sound.devices dev member).counted
    have found : dev.mtdPartInfo pnum.toNat = dev.parts[pnum.toNat]? := by
      rw [ListedDevice.mtdPartInfo]
      split
      · next beyond => rw [List.getElem?_eq_none (by omega)]
      · rfl
    dsimp only
    rw [found, Option.bind_some]
    cases here : dev.parts[pnum.toNat]? with
    | none => exact ⟨sound, rfl⟩
    | some chosen =>
      have now := @current_of_mem ⟨s.devices, some dev.key, pnum⟩ dev sound.apart member rfl
      refine ⟨⟨sound.devices, sound.apart, fun _ => ?_, fun none => ?_⟩, now.trans here⟩
      · rw [Option.isSome_some, if_pos rfl, now, here]
        rfl
      · exact absurd none (List.ne_nil_of_mem member)

theorem MtdState.Sound.current_none (sound : s.Sound) (empty : s.devices = []) :
    s.current = none := by
  rw [MtdState.current, sound.unset empty]
  rfl

/-- `device_add` keeps the current partition, or makes the first one current. -/
theorem addDevice_right {key : Nat} {id : Mtdids} (sound : s.Sound)
    (fresh : s.Fresh (.addDevice key id parts))
    (allowed : s.Allowed table (.addDevice key id parts)) :
    (s.perform table (.addDevice key id parts)).Sound ∧
      (s.perform table (.addDevice key id parts)).current =
        s.wanted (.addDevice key id parts) := by
  rw [MtdState.perform, MtdState.wanted]
  cases built : deviceOf key id parts with
  | none =>
    refine ⟨sound, ?_⟩
    by_cases empty : s.devices = []
    · rw [if_pos empty]
      exact sound.current_none empty
    · rw [if_neg empty]
  | some dev =>
    have room := allowed (by rw [built]; exact Option.some_ne_none _)
    obtain ⟨devSound, same⟩ := deviceOf_sound fresh.2 room built
    dsimp only
    rw [MtdState.deviceAdd]
    by_cases empty : s.devices = []
    · rw [if_pos empty, if_pos empty]
      have apart : (([dev] : List ListedDevice).map ListedDevice.key).Nodup :=
        List.nodup_singleton _
      have now := @current_of_mem ⟨[dev], some dev.key, 0⟩ dev apart List.mem_cons_self rfl
      have first : dev.parts[(0 : UInt8).toNat]? = dev.parts.head? := List.head?_eq_getElem?.symm
      refine ⟨⟨List.forall_mem_singleton.mpr devSound, apart, fun _ => ?_, fun none => ?_⟩,
        now.trans first⟩
      · rw [now, first, List.isSome_head?]
        exact devSound.nonempty
      · exact absurd none (List.cons_ne_nil _ _)
    · rw [if_neg empty, if_neg empty]
      obtain ⟨home, member, chosen, curr, isCurrent, here⟩ := sound.exists_current empty
      have apart : ((s.devices ++ [dev]).map ListedDevice.key).Nodup := by
        rw [List.map_append, List.map_cons, List.map_nil, List.nodup_append]
        refine ⟨sound.apart, List.nodup_singleton _, ?_⟩
        rintro a older b last rfl
        obtain ⟨other, there, rfl⟩ := List.mem_map.mp older
        exact fresh.1 other there ((List.mem_singleton.mp last).trans same)
      have now := @current_of_mem ⟨s.devices ++ [dev], s.currentMtdDev, s.currentMtdPartnum⟩ home
        apart (List.mem_append_left _ member) chosen
      refine ⟨⟨?_, apart, fun _ => ?_, fun none => ?_⟩, ?_⟩
      · exact List.forall_mem_append.mpr ⟨sound.devices, List.forall_mem_singleton.mpr devSound⟩
      · rw [now, here]
        rfl
      · exact absurd (List.append_eq_nil_iff.mp none).1 empty
      · rw [now, here, isCurrent]

/-- `device_del` keeps the current partition, or makes the first one current. -/
theorem deviceDel_right {d : Nat} (sound : s.Sound) (there : s.devices[d]? = some dev) :
    (s.deviceDel d dev).Sound ∧ (s.deviceDel d dev).current =
      if s.currentMtdDev = some dev.key then firstPart (s.devices.eraseIdx d) else s.current := by
  have member := List.mem_of_getElem? there
  have apart : ((s.devices.eraseIdx d).map ListedDevice.key).Nodup := by
    rw [← List.eraseIdx_map]
    exact sound.apart.eraseIdx d
  have left : ∀ other ∈ s.devices.eraseIdx d, other.Sound :=
    fun other there => sound.devices other (List.mem_of_mem_eraseIdx there)
  rw [MtdState.deviceDel]
  by_cases here : s.currentMtdDev = some dev.key
  · rw [if_pos here, if_pos here]
    cases remain : s.devices.eraseIdx d with
    | nil => exact ⟨⟨fun other none => absurd none List.not_mem_nil, List.nodup_nil,
        fun some => absurd rfl some, fun _ => rfl⟩, rfl⟩
    | cons first rest =>
      rw [remain] at apart left
      have now := @current_of_mem ⟨first :: rest, some first.key, 0⟩ first apart
        List.mem_cons_self rfl
      have atFirst : first.parts[(0 : UInt8).toNat]? = first.parts.head? :=
        List.head?_eq_getElem?.symm
      refine ⟨⟨left, apart, fun _ => ?_, fun none => ?_⟩, now.trans atFirst⟩
      · rw [now, atFirst, List.isSome_head?]
        exact (left first List.mem_cons_self).nonempty
      · exact absurd none (List.cons_ne_nil _ _)
  · rw [if_neg here, if_neg here]
    obtain ⟨home, inList, chosen, curr, isCurrent, atIndex⟩ :=
      sound.exists_current (List.ne_nil_of_mem member)
    have stays : home ∈ s.devices.eraseIdx d := by
      obtain ⟨e, atHome⟩ := List.mem_iff_getElem?.mp inList
      refine List.mem_eraseIdx_iff_getElem?.mpr ⟨e, ?_, atHome⟩
      rintro rfl
      rw [there] at atHome
      obtain rfl := Option.some.inj atHome
      exact here chosen
    have now := @current_of_mem ⟨s.devices.eraseIdx d, s.currentMtdDev, s.currentMtdPartnum⟩ home
      apart stays chosen
    refine ⟨⟨left, apart, fun _ => ?_, fun none => ?_⟩, ?_⟩
    · rw [now, atIndex]
      rfl
    · exact absurd none (List.ne_nil_of_mem stays)
    · rw [now, atIndex, isCurrent]

/-- What is left of a device without one of its partitions. -/
def ListedDevice.without (dev : ListedDevice) (k : Nat) : ListedDevice :=
  { dev with parts := dev.parts.eraseIdx k, numParts := dev.numParts - 1 }

theorem ListedDevice.without_sound (before : dev.Sound) (inside : k < dev.parts.length)
    (more : dev.parts.length ≠ 1) : (dev.without k).Sound := by
  refine ⟨before.toOrdered.erase inside, ?_⟩
  rw [without, ne_eq, List.eraseIdx_eq_nil_iff]
  rintro (empty | ⟨single, -⟩)
  · exact before.nonempty empty
  · exact more single

/-- On the current device the current partition is kept, or the first one is made current. -/
theorem partDel_here {d : Nat} {part : Listed} (sound : s.Sound) (there : s.devices[d]? = some dev)
    (atPart : dev.parts[k]? = some part) (more : dev.parts.length ≠ 1)
    (here : s.currentMtdDev = some dev.key) (allowed : s.Allowed table (.del d k)) :
    (MtdState.mk (s.devices.set d (dev.without k)) s.currentMtdDev
      (shiftDown s.currentMtdPartnum part (dev.mtdPartInfo s.currentMtdPartnum.toNat))).Sound ∧
    (MtdState.mk (s.devices.set d (dev.without k)) s.currentMtdDev
      (shiftDown s.currentMtdPartnum part (dev.mtdPartInfo s.currentMtdPartnum.toNat))).current =
        if s.currentMtdPartnum.toNat = k then (dev.parts.eraseIdx k).head? else s.current := by
  have member := List.mem_of_getElem? there
  have before := sound.devices dev member
  obtain ⟨inside, -⟩ := List.getElem?_eq_some_iff.mp atPart
  have leftSound := ListedDevice.without_sound before inside more
  have counted := before.counted
  obtain ⟨curr, isCurrent, atIndex⟩ := sound.current_eq member here
  obtain ⟨within, -⟩ := List.getElem?_eq_some_iff.mp atIndex
  have found : dev.mtdPartInfo s.currentMtdPartnum.toNat = some curr := by
    rw [ListedDevice.mtdPartInfo, if_neg (by omega), atIndex]
  rw [found]
  have now := @current_set s dev (dev.without k) d
    (shiftDown s.currentMtdPartnum part (some curr)) sound there rfl here
  by_cases same : s.currentMtdPartnum.toNat = k
  · have equal : curr = part :=
      Option.some.inj (atIndex.symm.trans ((congrArg (dev.parts[·]?) same).trans atPart))
    have zero : shiftDown s.currentMtdPartnum part (some curr) = 0 :=
      if_pos (congrArg Listed.key equal)
    rw [zero] at now ⊢
    have first : (dev.without k).parts[(0 : UInt8).toNat]? = (dev.parts.eraseIdx k).head? :=
      List.head?_eq_getElem?.symm
    rw [if_pos same]
    refine ⟨set_sound sound there leftSound rfl ?_, now.trans first⟩
    rw [now, first, List.isSome_head?]
    exact leftSound.nonempty
  · have kept : (dev.without k).parts[(shiftDown s.currentMtdPartnum part (some curr)).toNat]? =
        some curr := getElem?_shiftDown before.sorted before.apart atPart atIndex same
      fun behind => allowed dev part curr there atPart here isCurrent behind
    rw [if_neg same]
    refine ⟨set_sound sound there leftSound rfl ?_, ?_⟩
    · rw [now, kept]
      rfl
    · rw [now, kept, isCurrent]

/-- `part_del` keeps the current partition, or makes the first one current. -/
theorem partDel_right {d : Nat} (sound : s.Sound) (allowed : s.Allowed table (.del d k)) :
    (s.partDel d k).Sound ∧ (s.partDel d k).current = s.wanted (.del d k) := by
  rw [MtdState.partDel, MtdState.wanted]
  cases there : s.devices[d]? with
  | none => exact ⟨sound, rfl⟩
  | some dev =>
    have member := List.mem_of_getElem? there
    have before := sound.devices dev member
    dsimp only
    cases atPart : dev.parts[k]? with
    | none =>
      refine ⟨sound, ?_⟩
      rw [if_neg]
      rintro ⟨here, rfl⟩
      obtain ⟨curr, -, atIndex⟩ := sound.current_eq member here
      rw [atPart] at atIndex
      cases atIndex
    | some part =>
      obtain ⟨inside, -⟩ := List.getElem?_eq_some_iff.mp atPart
      have counted := before.counted
      have alone : dev.numParts = 1 ↔ dev.parts.length = 1 := by
        rw [← UInt16.toNat_inj, counted]
        rfl
      dsimp only
      by_cases one : dev.numParts = 1
      · obtain ⟨after, isCurrent⟩ := deviceDel_right sound there
        rw [if_pos one]
        refine ⟨after, isCurrent.trans ?_⟩
        by_cases here : s.currentMtdDev = some dev.key
        · obtain ⟨curr, -, atIndex⟩ := sound.current_eq member here
          obtain ⟨within, -⟩ := List.getElem?_eq_some_iff.mp atIndex
          have length := alone.mp one
          rw [if_pos here, if_pos ⟨here, by omega⟩, if_pos length]
        · rw [if_neg here, if_neg fun both => here both.1]
      · have more : dev.parts.length ≠ 1 := mt alone.mpr one
        rw [if_neg one]
        by_cases here : s.currentMtdDev = some dev.key
        · obtain ⟨after, isCurrent⟩ := partDel_here sound there atPart more here allowed
          rw [if_pos here]
          refine ⟨after, isCurrent.trans ?_⟩
          simp only [here, true_and, if_neg more]
        · have now := @current_set_other s dev (dev.without k) d sound there rfl here
          rw [if_neg here, if_neg fun both => here both.1]
          have isCurrent : (MtdState.mk (s.devices.set d (dev.without k)) s.currentMtdDev
              s.currentMtdPartnum).current.isSome := by
            rw [now]
            exact sound.current (List.ne_nil_of_mem member)
          have leftSound := ListedDevice.without_sound before inside more
          exact ⟨set_sound sound there leftSound rfl isCurrent, now⟩

theorem perform_right {op : MtdOp} (sound : s.Sound) (fresh : s.Fresh op)
    (allowed : s.Allowed table op) :
    (s.perform table op).Sound ∧ (s.perform table op).current = s.wanted op := by
  cases op with
  | addDevice key id parts => exact addDevice_right sound fresh allowed
  | add d part => exact partAdd_right sound fresh allowed
  | del d k => exact partDel_right sound allowed
  | chpart d pnum => exact chpart_right sound

theorem init_sound : MtdState.init.Sound :=
  ⟨fun _ none => absurd none List.not_mem_nil, List.nodup_nil, fun some => absurd rfl some,
    fun _ => rfl⟩

theorem right_of_meets {ops : List MtdOp} (sound : s.Sound) (meets : Meets table s ops) :
    Right table s ops := by
  induction ops generalizing s with
  | nil => exact sound
  | cons op ops ih =>
    obtain ⟨fresh, allowed, rest⟩ := meets
    obtain ⟨after, isCurrent⟩ := perform_right sound fresh allowed
    exact ⟨sound, isCurrent, ih after rest⟩

/-- In every run in which the counters have room, and no partition is deleted that is behind the
current one at the same offset, the lists stay sorted and counted, and the current partition stays
until it is deleted or another one is chosen. -/
theorem mtd_run_right (table : MtdTable) (ops : List MtdOp) (meets : Meets table .init ops) :
    Right table .init ops :=
  right_of_meets init_sound meets

/-- A flash device of 1 MiB with blocks of 4 KiB. -/
def flashTable : MtdTable := fun _ _ => some ⟨4096, []⟩

def flashId : Mtdids := ⟨1, 0, 1048576, ['n', 'o', 'r', '0']⟩

def flashPart (key offset : Nat) : Listed := ⟨key, none, 131072, offset, 0⟩

/-- The second of two partitions is current; one is put in front of it, and the first is deleted. -/
def flashRun : List MtdOp :=
  [.addDevice 1 flashId [flashPart 10 0, flashPart 11 262144], .chpart 0 1,
    .add 0 (flashPart 12 131072), .del 0 0]

/-- The second partition stays current. -/
theorem mtd_run_right_flash :
    Meets flashTable .init flashRun ∧ Right flashTable .init flashRun := by
  have meets : Meets flashTable .init flashRun := by
    refine ⟨⟨fun _ none => absurd none List.not_mem_nil, by decide⟩, fun _ => by decide, trivial,
      trivial, ?_, ?_, trivial, ?_, trivial⟩
    · intro dev member listed inside same
      obtain rfl := List.mem_singleton.mp member
      rcases List.mem_cons.mp inside with rfl | later
      · cases same
      · obtain rfl := List.mem_singleton.mp later
        cases same
    · intro dev info there takes
      obtain rfl := Option.some.inj there
      exact ⟨by decide, fun _ _ _ _ => by decide⟩
    · intro dev part curr there atPart here isCurrent behind
      exact absurd behind (by decide)
  exact ⟨meets, mtd_run_right flashTable flashRun meets⟩

/-- Of two partitions at one offset the first is current, and the second is deleted. -/
def sharedOffsetRun : List MtdOp :=
  [.addDevice 1 flashId [flashPart 10 0, flashPart 11 131072, flashPart 12 131072], .chpart 0 1,
    .del 0 2]

/-- The partition in front of them becomes the current one. -/
theorem sharedOffset_lost : ¬Right flashTable .init sharedOffsetRun := by
  rintro ⟨-, -, -, -, -, wrong, -⟩
  have keys := congrArg (Option.map Listed.key) wrong
  exact absurd keys (by decide)

end HrppBoot.Parts
