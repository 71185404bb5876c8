import HrppBoot.Env.TableMap

/-!
# Calls on the table that fail

`hsearch_r` and `hdelete_r` with all their exits: `change_ok` and the callback of an entry can
refuse a change, and each `strdup` can fail. A bucket is claimed, filled and counted before the
outcome is known, so that a failed allocation leaves null pointers in it, and a refused new entry
takes the bucket it was put in with it. `Harmless` is the exact condition under which a call that
fails leaves the entries, their number and the pointers as they were.
-/

namespace HrppBoot.Env

/-- A bucket whose strings may be null pointers. -/
inductive Slot where
  /-- `used == 0` -/
  | empty
  /-- `used == -1` -/
  | deleted
  /-- `used > 0` -/
  | live (used : Nat) (key data : Option CString)
  deriving DecidableEq, Repr

/-- A bucket whose strings are there. -/
def Bucket.slot : Bucket → Slot
  | .empty => .empty
  | .deleted => .deleted
  | .live used key data => .live used (some key) (some data)

/-- `used == hval` and equal keys; `strcmp` has no result on a null pointer. -/
def Slot.holdsKey (slot : Slot) (hval : Nat) (key : CString) : Option Bool :=
  match slot with
  | .live used other _ =>
    if used = hval then other.map fun other => decide (key = other) else some false
  | .empty => some false
  | .deleted => some false

@[simp] theorem Bucket.holdsKey_slot (bucket : Bucket) (hval : Nat) (key : CString) :
    bucket.slot.holdsKey hval key = some (bucket.holdsKey hval key) := by
  cases bucket with
  | empty => rfl
  | deleted => rfl
  | live used other data =>
    simp only [slot, Slot.holdsKey, holdsKey, Option.map_some]
    split
    · rename_i same
      simp [same]
    · rename_i different
      simp [different]

@[simp] theorem Bucket.slot_eq_empty {bucket : Bucket} :
    bucket.slot = .empty ↔ bucket = .empty := by
  cases bucket <;> simp [slot]

@[simp] theorem Bucket.slot_eq_deleted {bucket : Bucket} :
    bucket.slot = .deleted ↔ bucket = .deleted := by
  cases bucket <;> simp [slot]

theorem Bucket.slot_eq_live {bucket : Bucket} {used : Nat} {key data : Option CString} :
    bucket.slot = .live used key data ↔
      ∃ key' data', key = some key' ∧ data = some data' ∧ bucket = .live used key' data' := by
  cases bucket with
  | empty => simp [slot]
  | deleted => simp [slot]
  | live used' key' data' =>
    constructor
    · intro same
      cases same
      exact ⟨_, _, rfl, rfl, rfl⟩
    · rintro ⟨_, _, rfl, rfl, same⟩
      cases same
      rfl

/-- `struct hsearch_data` with such buckets. -/
structure PointerTable where
  size : Nat
  filled : Nat
  table : Nat → Slot

/-- A table without null pointers. -/
def HsearchData.pointers (htab : HsearchData) : PointerTable :=
  ⟨htab.size, htab.filled, fun i => (htab.table i).slot⟩

/-- What the hooks say to a change, and how the allocations end. A hook that is not there accepts
every change. -/
structure Outcome where
  /-- `change_ok` accepts the change. -/
  changeOk : Bool
  callback : Bool
  /-- `strdup(item.key)` succeeds. -/
  keyCopied : Bool
  /-- `strdup(item.data)` succeeds. -/
  dataCopied : Bool
  deriving DecidableEq, Repr

/-- Why a call fails: the value of `errno`. -/
inductive Failure where
  | esrch
  | eperm
  | einval
  | enomem
  deriving DecidableEq, Repr

namespace PointerTable

/-- Write one bucket. -/
def setSlot (htab : PointerTable) (idx : Nat) (slot : Slot) : PointerTable :=
  { htab with table := fun i => if i = idx then slot else htab.table i }

@[simp] theorem setSlot_same (htab : PointerTable) (idx : Nat) (slot : Slot) :
    (htab.setSlot idx slot).table idx = slot := by
  simp [setSlot]

theorem setSlot_other (htab : PointerTable) {idx i : Nat} (slot : Slot) (other : i ≠ idx) :
    (htab.setSlot idx slot).table i = htab.table i := by
  simp [setSlot, other]

/-- The `do`-`while` loop of `hsearch_r`; `none` stands for a loop that does not end, or that comes
to a null pointer. -/
def probeLoop (htab : PointerTable) (key : CString) (hval hval2 : Nat) :
    Nat → Nat → Option ProbeEnd
  | 0, _ => none
  | fuel + 1, last =>
    let idx := Probe.next htab.size hval2 last
    if idx = hval then some (.stopped idx)
    else
      match (htab.table idx).holdsKey hval key with
      | none => none
      | some true => some (.found idx)
      | some false =>
        if htab.table idx = .empty then some (.stopped idx)
        else probeLoop htab key hval hval2 fuel idx

/-- The search part of `hsearch_r`. -/
def locate (htab : PointerTable) (key : CString) : Option ProbeEnd :=
  let hval := firstHash htab.size key
  if htab.table hval = .empty then some (.stopped hval)
  else
    match (htab.table hval).holdsKey hval key with
    | none => none
    | some true => some (.found hval)
    | some false => htab.probeLoop key hval (secondHash htab.size hval) htab.size hval

/-- `_hdelete` -/
def delete (htab : PointerTable) (idx : Nat) : PointerTable :=
  { htab.setSlot idx .deleted with filled := htab.filled - 1 }

/-- Where a new entry goes: `first_deleted`, or where the search ended. -/
def claimed (htab : PointerTable) (key : CString) (idx : Nat) : Nat :=
  if htab.table (firstHash htab.size key) = .deleted then firstHash htab.size key else idx

/-- `_compare_and_overwrite_entry` at the entry of the key. -/
def overwriteEntry (htab : PointerTable) (key data : CString) (outcome : Outcome) (idx : Nat) :
    Except Failure Unit × PointerTable :=
  if !outcome.changeOk then (.error .eperm, htab)
  else if !outcome.callback then (.error .einval, htab)
  else if !outcome.dataCopied then
    (.error .enomem, htab.setSlot idx (.live (firstHash htab.size key) (some key) none))
  else (.ok (), htab.setSlot idx (.live (firstHash htab.size key) (some key) (some data)))

/-- The part of `hsearch_r` that makes a new entry. -/
def createEntry (htab : PointerTable) (key data : CString) (outcome : Outcome) (idx : Nat) :
    Except Failure Unit × PointerTable :=
  if htab.filled = htab.size then (.error .enomem, htab)
  else
    let idx := htab.claimed key idx
    let made := htab.setSlot idx (.live (firstHash htab.size key)
      (if outcome.keyCopied then some key else none)
      (if outcome.dataCopied then some data else none))
    if !outcome.keyCopied || !outcome.dataCopied then (.error .enomem, made)
    else
      let counted := { made with filled := htab.filled + 1 }
      if !outcome.changeOk then (.error .eperm, counted.delete idx)
      else if !outcome.callback then (.error .einval, counted.delete idx)
      else (.ok (), counted)

/-- `hsearch_r` with `ENTER` and data. -/
def hsearchEnter (htab : PointerTable) (key data : CString) (outcome : Outcome) :
    Option (Except Failure Unit × PointerTable) :=
  match htab.locate key with
  | none => none
  | some (.found idx) => some (htab.overwriteEntry key data outcome idx)
  | some (.stopped idx) => some (htab.createEntry key data outcome idx)

def hdeleteR (htab : PointerTable) (key : CString) (outcome : Outcome) :
    Option (Except Failure Unit × PointerTable) :=
  match htab.locate key with
  | none => none
  | some (.stopped _) => some (.error .esrch, htab)
  | some (.found idx) =>
    if !outcome.changeOk then some (.error .eperm, htab)
    else if !outcome.callback then some (.error .einval, htab)
    else some (.ok (), htab.delete idx)

end PointerTable

/-- A call on the table, with what the hooks say and how the allocations end. -/
inductive Call where
  /-- `hsearch_r(ENTER)` -/
  | enter (key data : CString) (outcome : Outcome)
  /-- `hdelete_r` -/
  | delete (key : CString) (outcome : Outcome)
  deriving DecidableEq, Repr

/-- One call. -/
def PointerTable.call (htab : PointerTable) : Call → Option (Except Failure Unit × PointerTable)
  | .enter key data outcome => htab.hsearchEnter key data outcome
  | .delete key outcome => htab.hdeleteR key outcome

/-- The table behind a history of calls. -/
def PointerTable.calls (htab : PointerTable) : List Call → Option PointerTable
  | [] => some htab
  | call :: rest => (htab.call call).bind fun after => after.2.calls rest

/-! ## Failures that leave no trace -/

namespace PointerTable

/-- The table has this entry. -/
def Holds (htab : PointerTable) (key data : CString) : Prop :=
  ∃ i used, htab.table i = .live used (some key) (some data)

/-- No entry has a null pointer for its key or data. -/
def NoNull (htab : PointerTable) : Prop :=
  ∀ i used key data, htab.table i = .live used key data → key ≠ none ∧ data ≠ none

/-- The entries and their number are the same, and no pointer is null. -/
structure Unchanged (before after : PointerTable) : Prop where
  entries : ∀ key data, after.Holds key data ↔ before.Holds key data
  filled : after.filled = before.filled
  pointers : after.NoNull

end PointerTable

/-- If the call fails, it leaves everything unchanged. -/
def Call.Clean (htab : PointerTable) (call : Call) : Prop :=
  ∀ failure after, htab.call call = some (.error failure, after) → htab.Unchanged after

/-- The hooks accept the change. -/
def Outcome.accepted (outcome : Outcome) : Bool := outcome.changeOk && outcome.callback

/-- The bucket is live. -/
def Slot.isLive : Slot → Bool
  | .live _ _ _ => true
  | .empty => false
  | .deleted => false

/-- An accepted new value for an entry is copied; a new entry, if the table is not full, is copied,
and if it is refused the bucket that it was put in was not live. -/
def Call.Harmless (htab : PointerTable) : Call → Prop
  | .delete _ _ => True
  | .enter key _ outcome =>
    match htab.locate key with
    | none => True
    | some (.found _) => outcome.accepted = true → outcome.dataCopied = true
    | some (.stopped idx) => htab.filled = htab.size ∨
      outcome.keyCopied = true ∧ outcome.dataCopied = true ∧
        (outcome.accepted = true ∨ (htab.table (htab.claimed key idx)).isLive = false)

/-- Every call of a history is harmless where it is made. -/
def HarmlessRun (htab : PointerTable) : List Call → Prop
  | [] => True
  | call :: rest => call.Harmless htab ∧
    ∀ result after, htab.call call = some (result, after) → HarmlessRun after rest

/-! ## Tables without null pointers -/

namespace HsearchData

theorem pointers_setBucket (htab : HsearchData) (idx : Nat) (bucket : Bucket) :
    (htab.setBucket idx bucket).pointers = htab.pointers.setSlot idx bucket.slot := by
  simp only [pointers, setBucket, PointerTable.setSlot, PointerTable.mk.injEq, true_and]
  funext i
  split <;> rfl

theorem pointers_setBucket_filled (htab : HsearchData) (idx : Nat) (bucket : Bucket)
    (filled : Nat) :
    ({ htab.setBucket idx bucket with filled := filled } : HsearchData).pointers =
      { htab.pointers.setSlot idx bucket.slot with filled := filled } := by
  rw [← pointers_setBucket]
  rfl

theorem probeLoop_pointers (htab : HsearchData) (key : CString) (hval hval2 fuel last : Nat) :
    htab.pointers.probeLoop key hval hval2 fuel last =
      Env.probeLoop htab key hval hval2 fuel last := by
  induction fuel generalizing last with
  | zero => rfl
  | succ fuel ih =>
    rw [PointerTable.probeLoop, Env.probeLoop]
    simp only [pointers, Bucket.holdsKey_slot, Bucket.slot_eq_empty]
    cases (htab.table (Probe.next htab.size hval2 last)).holdsKey hval key with
    | true => rfl
    | false =>
      simp only [Bool.false_eq_true, ↓reduceIte]
      split
      · rfl
      · split
        · rfl
        · exact ih _

theorem locate_pointers (htab : HsearchData) (key : CString) :
    htab.pointers.locate key = Env.locate htab key := by
  have loop := htab.probeLoop_pointers key (firstHash htab.size key)
    (secondHash htab.size (firstHash htab.size key)) htab.size (firstHash htab.size key)
  rw [PointerTable.locate, Env.locate]
  simp only [pointers, Bucket.holdsKey_slot, Bucket.slot_eq_empty] at loop ⊢
  cases (htab.table (firstHash htab.size key)).holdsKey (firstHash htab.size key) key with
  | true => rfl
  | false =>
    simp only [Bool.false_eq_true, ↓reduceIte]
    rw [loop]

theorem holds_pointers (htab : HsearchData) (key data : CString) :
    htab.pointers.Holds key data ↔ Live htab key data := by
  simp only [PointerTable.Holds, Live, pointers, Bucket.slot_eq_live]
  constructor
  · rintro ⟨i, used, key', data', sameKey, sameData, live⟩
    cases sameKey
    cases sameData
    exact ⟨i, used, live⟩
  · rintro ⟨i, used, live⟩
    exact ⟨i, used, key, data, rfl, rfl, live⟩

theorem noNull_pointers (htab : HsearchData) : htab.pointers.NoNull := by
  intro i used key data live
  obtain ⟨key', data', rfl, rfl, -⟩ := Bucket.slot_eq_live.mp live
  simp

end HsearchData

/-! ## The invariant -/

/-- A table is intact, and a table of one bucket counts its entries. -/
structure Sound (htab : HsearchData) : Prop where
  intact : Intact htab
  counted : htab.size = 1 → ∃ m, Represents htab m

theorem Sound.step {htab after : HsearchData} {op : Op} {output : Output} (sound : Sound htab)
    (stepped : Env.step htab op = some (output, after)) : Sound after := by
  by_cases one : htab.size = 1
  · obtain ⟨m, rep⟩ := sound.counted one
    obtain ⟨after', stepped', size, rep'⟩ := rep.step (rep.safe_of_one one op)
    rw [stepped] at stepped'
    cases stepped'
    exact ⟨rep'.toIntact, fun _ => ⟨_, rep'⟩⟩
  · obtain ⟨output', after', stepped', size, intact'⟩ := sound.intact.step one op
    rw [stepped] at stepped'
    cases stepped'
    exact ⟨intact', fun one' => absurd (size.symm.trans one') one⟩

theorem hcreateR_sound {nel : Nat} {htab : HsearchData} (created : hcreateR nel = some htab) :
    Sound htab :=
  ⟨hcreateR_intact created, fun _ => ⟨_, hcreateR_represents created⟩⟩

theorem live_setTombstone {htab : HsearchData} {i : Nat}
    (dead : ∀ used key data, htab.table i ≠ .live used key data) (i' used : Nat)
    (key data : CString) :
    (htab.setBucket i .deleted).table i' = .live used key data ↔
      htab.table i' = .live used key data := by
  by_cases same : i' = i
  · subst same
    rw [HsearchData.setBucket_same]
    exact ⟨nofun, fun live => absurd live (dead used key data)⟩
  · rw [HsearchData.setBucket_other _ _ same]

theorem Intact.setTombstone {htab : HsearchData} (intact : Intact htab) {i : Nat}
    (positive : i ≠ 0) (dead : ∀ used key data, htab.table i ≠ .live used key data) :
    Intact (htab.setBucket i .deleted) where
  size := intact.size
  zero := (HsearchData.setBucket_other _ _ positive.symm).trans intact.zero
  reached := by
    intro i' used key data live
    obtain ⟨hash, j, within, here, earlier⟩ :=
      intact.reached ((live_setTombstone dead _ _ _ _).mp live)
    exact ⟨hash, j, within, here, fun j' before => setBucket_used (by simp) (earlier j' before)⟩
  unique := by
    intro i₁ i₂ used₁ used₂ key data₁ data₂ live₁ live₂
    exact intact.unique ((live_setTombstone dead _ _ _ _).mp live₁)
      ((live_setTombstone dead _ _ _ _).mp live₂)

theorem Sound.setTombstone {htab : HsearchData} (sound : Sound htab) {i : Nat}
    (positive : i ≠ 0) (dead : ∀ used key data, htab.table i ≠ .live used key data) :
    Sound (htab.setBucket i .deleted) where
  intact := sound.intact.setTombstone positive dead
  counted := by
    intro one
    obtain ⟨m, rep⟩ := sound.counted one
    refine ⟨m, sound.intact.setTombstone positive dead, ?_, rep.filled⟩
    intro key data
    rw [rep.entries]
    simp only [Live, live_setTombstone dead]

theorem Sound.claimed_ne_zero {htab : HsearchData} (sound : Sound htab) {key : CString} {idx : Nat}
    (missing : ∀ data, ¬Live htab key data) (located : locate htab key = some (.stopped idx))
    (room : htab.filled ≠ htab.size) : htab.pointers.claimed key idx ≠ 0 := by
  have bounds := firstHash_bounds sound.intact.size key
  obtain ⟨stop, located', ends⟩ := sound.intact.locate_missing missing
  rw [located] at located'
  cases located'
  unfold PointerTable.claimed
  split
  · exact (show 0 < firstHash htab.size key by omega).ne'
  · rename_i notDeleted
    rcases ends with ⟨-, j, within, here, -⟩ | ⟨back, used⟩
    · have := probePath_bounds sound.intact.size key within
      omega
    · by_cases one : htab.size = 1
      · obtain ⟨m, rep⟩ := sound.counted one
        rcases rep.safe_of_one one (.enter key []) with ⟨data, live⟩ | full | deleted |
          ⟨i, low, high, empty⟩
        · exact absurd live (missing data)
        · exact absurd full room
        · exact absurd (Bucket.slot_eq_deleted.mpr deleted) notDeleted
        · exact absurd empty (used i low high)
      · rw [back one]
        omega

theorem Sound.located {htab : HsearchData} (sound : Sound htab) (key : CString) :
    (∃ i data, htab.table i = .live (firstHash htab.size key) key data ∧
        locate htab key = some (.found i)) ∨
      (∀ data, ¬Live htab key data) ∧ ∃ idx, locate htab key = some (.stopped idx) := by
  by_cases present : ∃ data, Live htab key data
  · obtain ⟨data, i, used, live⟩ := present
    obtain ⟨rfl, -⟩ := sound.intact.reached live
    exact .inl ⟨i, data, live, sound.intact.locate_found live⟩
  · have missing (data : CString) : ¬Live htab key data := fun live => present ⟨data, live⟩
    obtain ⟨idx, located, -⟩ := sound.intact.locate_missing missing
    exact .inr ⟨missing, idx, located⟩

/-! ## One call -/

/-- What a call returned was harmless exactly under a condition, and then left a table that keeps
the invariant. -/
structure Settled (htab : HsearchData) (returned : Except Failure Unit × PointerTable)
    (condition : Prop) : Prop where
  /-- A failure left everything unchanged exactly under the condition. -/
  clean_iff : (∀ failure, returned.1 = .error failure → htab.pointers.Unchanged returned.2) ↔
    condition
  sound : condition → ∃ after : HsearchData, returned.2 = after.pointers ∧ Sound after

theorem unchanged_rfl (htab : HsearchData) : htab.pointers.Unchanged htab.pointers :=
  ⟨fun _ _ => Iff.rfl, rfl, htab.noNull_pointers⟩

theorem Sound.settled_same {htab : HsearchData} (sound : Sound htab) (failure : Failure)
    {condition : Prop} (holds : condition) :
    Settled htab (.error failure, htab.pointers) condition :=
  ⟨⟨fun _ => holds, fun _ _ _ => unchanged_rfl htab⟩, fun _ => ⟨htab, rfl, sound⟩⟩

theorem settled_ok {htab after : HsearchData} {table : PointerTable} (sound : Sound after)
    (same : table = after.pointers) {condition : Prop} (holds : condition) :
    Settled htab (.ok (), table) condition :=
  ⟨⟨fun _ => holds, fun _ => nofun⟩, fun _ => ⟨after, same, sound⟩⟩

theorem settled_null {htab : HsearchData} {after : PointerTable} {failure : Failure}
    {i used : Nat} {key data : Option CString} (live : after.table i = .live used key data)
    (null : key = none ∨ data = none) {condition : Prop} (fails : ¬condition) :
    Settled htab (.error failure, after) condition := by
  refine ⟨⟨fun clean => ?_, fun holds => absurd holds fails⟩, fun holds => absurd holds fails⟩
  obtain ⟨keyThere, dataThere⟩ := (clean failure rfl).pointers i used key data live
  exact (null.elim keyThere dataThere).elim

theorem Sound.overwriteEntry {htab : HsearchData} (sound : Sound htab) {key old : CString}
    (data : CString) (outcome : Outcome) {i : Nat}
    (live : htab.table i = .live (firstHash htab.size key) key old) :
    Settled htab (htab.pointers.overwriteEntry key data outcome i)
      (outcome.accepted = true → outcome.dataCopied = true) := by
  unfold PointerTable.overwriteEntry Outcome.accepted
  cases outcome.changeOk with
  | false => exact sound.settled_same .eperm (by simp)
  | true =>
    cases outcome.callback with
    | false => exact sound.settled_same .einval (by simp)
    | true =>
      cases outcome.dataCopied with
      | false =>
        exact settled_null (PointerTable.setSlot_same _ _ _) (.inr rfl) (by simp)
      | true =>
        have stepped : Env.step htab (.enter key data) = some (.entry (.ok data),
            htab.setBucket i (.live (firstHash htab.size key) key data)) := by
          simp [Env.step, hsearchEnter, sound.intact.locate_found live]
        exact settled_ok (sound.step stepped) (htab.pointers_setBucket _ _).symm (by simp)

theorem delete_made (htab : PointerTable) (idx : Nat) (slot : Slot) :
    ({ htab.setSlot idx slot with filled := htab.filled + 1 } : PointerTable).delete idx =
      htab.setSlot idx .deleted := by
  simp only [PointerTable.delete, PointerTable.setSlot, Nat.add_sub_cancel,
    PointerTable.mk.injEq, true_and]
  funext i
  split <;> rfl

theorem Sound.settled_refused {htab : HsearchData} (sound : Sound htab) (failure : Failure)
    {idx : Nat} (positive : idx ≠ 0) :
    Settled htab (.error failure, htab.pointers.setSlot idx .deleted)
      ((htab.pointers.table idx).isLive = false) := by
  have written : htab.pointers.setSlot idx .deleted = (htab.setBucket idx .deleted).pointers :=
    (htab.pointers_setBucket idx .deleted).symm
  have dead (notLive : (htab.pointers.table idx).isLive = false) (used : Nat) (key data : CString) :
      htab.table idx ≠ .live used key data := by
    intro live
    simp [HsearchData.pointers, live, Bucket.slot, Slot.isLive] at notLive
  rw [written]
  refine ⟨⟨fun clean => ?_, fun notLive _ _ => ⟨?_, rfl, HsearchData.noNull_pointers _⟩⟩,
    fun notLive => ⟨_, rfl, sound.setTombstone positive (dead notLive)⟩⟩
  · cases bucket : htab.table idx with
    | empty => simp [HsearchData.pointers, bucket, Bucket.slot, Slot.isLive]
    | deleted => simp [HsearchData.pointers, bucket, Bucket.slot, Slot.isLive]
    | live used key data =>
      have entries := (clean failure rfl).entries key data
      rw [HsearchData.holds_pointers, HsearchData.holds_pointers] at entries
      have gone := sound.intact.live_setDeleted bucket htab.filled key data
      exact absurd rfl (gone.mp (entries.mpr ⟨idx, used, bucket⟩)).1
  · intro key data
    rw [HsearchData.holds_pointers, HsearchData.holds_pointers]
    simp only [Live, live_setTombstone (dead notLive)]

/-- A new entry. -/
theorem Sound.createEntry {htab : HsearchData} (sound : Sound htab) {key : CString}
    (data : CString) (outcome : Outcome) {idx : Nat} (missing : ∀ data, ¬Live htab key data)
    (located : locate htab key = some (.stopped idx)) :
    Settled htab (htab.pointers.createEntry key data outcome idx)
      (htab.pointers.filled = htab.pointers.size ∨
        outcome.keyCopied = true ∧ outcome.dataCopied = true ∧
          (outcome.accepted = true ∨
            (htab.pointers.table (htab.pointers.claimed key idx)).isLive = false)) := by
  unfold PointerTable.createEntry
  by_cases full : htab.pointers.filled = htab.pointers.size
  · rw [if_pos full]
    exact sound.settled_same .enomem (.inl full)
  · have positive := sound.claimed_ne_zero missing located full
    simp only [full, false_or, delete_made]
    cases outcome.keyCopied with
    | false =>
      exact settled_null (PointerTable.setSlot_same _ _ _) (.inl rfl) (by simp)
    | true =>
      cases outcome.dataCopied with
      | false => exact settled_null (PointerTable.setSlot_same _ _ _) (.inr rfl) (by simp)
      | true =>
        unfold Outcome.accepted
        simp only [Bool.not_true, Bool.or_self, Bool.false_eq_true, ↓reduceIte, true_and]
        cases outcome.changeOk with
        | false => simpa using sound.settled_refused .eperm positive
        | true =>
          cases outcome.callback with
          | false => simpa using sound.settled_refused .einval positive
          | true =>
            have stepped : Env.step htab (.enter key data) = some (.entry (.ok data),
                { htab.setBucket (htab.pointers.claimed key idx)
                    (.live (firstHash htab.size key) key data) with
                  filled := htab.filled + 1 }) := by
              have room : htab.filled ≠ htab.size := full
              simp [Env.step, hsearchEnter, located, room, PointerTable.claimed,
                HsearchData.pointers]
            exact settled_ok (sound.step stepped)
              (htab.pointers_setBucket_filled _ _ _).symm (by simp)

/-- Every call on a table that keeps the invariant returns; if it fails, it leaves everything
unchanged exactly if it is harmless, and harmless calls keep the invariant. -/
theorem Sound.call {htab : HsearchData} (sound : Sound htab) (call : Call) :
    ∃ returned, htab.pointers.call call = some returned ∧
      Settled htab returned (call.Harmless htab.pointers) := by
  cases call with
  | enter key data outcome =>
    simp only [PointerTable.call, PointerTable.hsearchEnter, Call.Harmless,
      HsearchData.locate_pointers]
    rcases sound.located key with ⟨i, old, live, located⟩ | ⟨missing, idx, located⟩
    · rw [located]
      exact ⟨_, rfl, sound.overwriteEntry data outcome live⟩
    · rw [located]
      exact ⟨_, rfl, sound.createEntry data outcome missing located⟩
  | delete key outcome =>
    simp only [PointerTable.call, PointerTable.hdeleteR, Call.Harmless,
      HsearchData.locate_pointers]
    rcases sound.located key with ⟨i, data, live, located⟩ | ⟨-, idx, located⟩
    · rw [located]
      dsimp only
      cases outcome.changeOk with
      | false => exact ⟨_, rfl, sound.settled_same .eperm trivial⟩
      | true =>
        cases outcome.callback with
        | false => exact ⟨_, rfl, sound.settled_same .einval trivial⟩
        | true =>
          have stepped : Env.step htab (.delete key) = some (.deleted (.ok ()),
              { htab.setBucket i .deleted with filled := htab.filled - 1 }) := by
            simp [Env.step, Env.hdeleteR, hsearchFind, located, live]
          exact ⟨_, rfl, settled_ok (sound.step stepped)
            (htab.pointers_setBucket_filled _ _ _).symm trivial⟩
    · rw [located]
      exact ⟨_, rfl, sound.settled_same .esrch trivial⟩

theorem Sound.clean_iff {htab : HsearchData} (sound : Sound htab) (call : Call) :
    call.Clean htab.pointers ↔ call.Harmless htab.pointers := by
  obtain ⟨returned, called, settled⟩ := sound.call call
  rw [← settled.clean_iff]
  unfold Call.Clean
  rw [called]
  constructor
  · intro clean failure failed
    exact clean failure _ (by rw [← failed])
  · intro clean failure after same
    cases same
    exact clean failure rfl

/-! ## All histories -/

theorem Sound.calls {htab : HsearchData} (sound : Sound htab) {history : List Call}
    (harmless : HarmlessRun htab.pointers history) :
    ∃ before : HsearchData, htab.pointers.calls history = some before.pointers ∧ Sound before := by
  induction history generalizing htab with
  | nil => exact ⟨htab, rfl, sound⟩
  | cons first rest ih =>
    obtain ⟨returned, called, settled⟩ := sound.call first
    obtain ⟨after, same, sound'⟩ := settled.sound harmless.1
    have later := harmless.2 returned.1 returned.2 called
    rw [same] at later
    obtain ⟨before, ran, soundBefore⟩ := ih sound' later
    refine ⟨before, ?_, soundBefore⟩
    rw [PointerTable.calls, called, Option.bind_some, same, ran]

/-- Behind every history of harmless calls on a table made by `hcreate_r`, no pointer is null, every
call returns, and a call that fails leaves everything unchanged exactly if it is harmless. -/
theorem clean_iff_harmless {nel : Nat} {htab : HsearchData} (created : hcreateR nel = some htab)
    {history : List Call} (harmless : HarmlessRun htab.pointers history) (call : Call) :
    ∃ before, htab.pointers.calls history = some before ∧ before.NoNull ∧
      (∃ returned, before.call call = some returned) ∧
      (call.Clean before ↔ call.Harmless before) := by
  obtain ⟨before, ran, sound⟩ := (hcreateR_sound created).calls harmless
  obtain ⟨returned, called, -⟩ := sound.call call
  exact ⟨before.pointers, ran, before.noNull_pointers, ⟨returned, called⟩, sound.clean_iff call⟩

/-- Every hook accepts, and every allocation succeeds. -/
def succeeds : Outcome := ⟨true, true, true, true⟩

theorem harmlessRun_first (key data : CString) :
    HarmlessRun fiveBuckets.pointers [.enter key data succeeds] := by
  refine ⟨?_, fun _ _ _ => trivial⟩
  have located : fiveBuckets.pointers.locate key = some (.stopped (firstHash 5 key)) := rfl
  simp only [Call.Harmless, located]
  exact .inr ⟨rfl, rfl, .inl rfl⟩

/-- Behind one entry, a refused deletion. -/
theorem clean_iff_harmless_deletion :
    ∃ before, fiveBuckets.pointers.calls [.enter [97] [1] succeeds] = some before ∧
      before.NoNull ∧
      (∃ returned, before.call (.delete [97] ⟨false, true, true, true⟩) = some returned) ∧
      ((Call.delete [97] ⟨false, true, true, true⟩).Clean before ↔
        (Call.delete [97] ⟨false, true, true, true⟩).Harmless before) :=
  clean_iff_harmless hcreateR_five (harmlessRun_first [97] [1]) _

/-- Where the copy of a new value fails, the entry is left without data. -/
theorem failed_copy_leaves_null :
    ∃ before after, fiveBuckets.pointers.calls [.enter [97] [1] succeeds] = some before ∧
      before.call (.enter [97] [2] ⟨true, true, true, false⟩) = some (.error .enomem, after) ∧
      ¬ (Call.enter [97] [2] ⟨true, true, true, false⟩).Clean before := by
  refine ⟨_, _, rfl, rfl, ?_⟩
  intro clean
  have pointers := (clean .enomem _ rfl).pointers
  exact (pointers (firstHash 5 [97]) (firstHash 5 [97]) (some [97]) none rfl).2 rfl

-- A refused new entry that came back to the first bucket it tried takes the entry there with it.
example :
    ∃ before after, fiveBuckets.pointers.calls
        [.enter [97] [1] succeeds, .enter [98] [2] succeeds, .enter [99] [3] succeeds,
          .enter [100] [4] succeeds, .enter [101] [5] succeeds, .delete [101] succeeds] =
        some before ∧
      before.call (.enter [102] [6] ⟨false, true, true, true⟩) = some (.error .eperm, after) ∧
      before.table 3 = .live 3 (some [97]) (some [1]) ∧ after.table 3 = .deleted :=
  ⟨_, _, rfl, rfl, rfl, rfl⟩

end HrppBoot.Env
