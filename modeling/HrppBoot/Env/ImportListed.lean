import HrppBoot.Env.ImportBounds
import HrppBoot.Env.StoredText

/-!
# Import of listed variables

With a list of names, `himport_r` is to change these variables only: to the last value the text
gives them, and to none if it gives none. It strikes a name at the first item about it, so it is the
first value that counts, and no name is struck or deleted behind an entry without a name. What the
table loses on the way is told apart: an entry is refused by a full table, and takes the bucket of
another one when no bucket is left that was never used.
-/

namespace HrppBoot.Env

/-! ## What a step does to the variables -/

/-- The value of a variable, as `getenv` reads it from the table. -/
def known (htab : HsearchData) (name : CString) : Option CString := (getenv htab name).join

variable {htab after : HsearchData} {key : CString} {left : VarSet}

theorem Intact.known_eq_some (intact : Intact htab) {name value : CString} :
    known htab name = some value ↔ Live htab name value := by
  have reads := intact.getenv_eq name (known htab name)
  have answers : getenv htab name = some (known htab name) := by
    unfold known
    by_cases present : ∃ value, Live htab name value
    · obtain ⟨value, i, used, live⟩ := present
      simp [getenv, hsearchFind, intact.locate_found live, live]
    · obtain ⟨stop, located, -⟩ := intact.locate_missing fun value here => present ⟨value, here⟩
      simp [getenv, hsearchFind, located]
  exact reads.mp answers value

theorem Intact.known_eq_none (intact : Intact htab) {name : CString} :
    known htab name = none ↔ ∀ value, ¬Live htab name value := by
  rw [Option.eq_none_iff_forall_ne_some]
  exact forall_congr' fun value => not_congr intact.known_eq_some

theorem Intact.known_eq (intact : Intact htab) (intactAfter : Intact after) {name name' : CString}
    (same : ∀ value, Live after name value ↔ Live htab name' value) :
    known after name = known htab name' := by
  refine Option.ext fun value => ?_
  rw [intactAfter.known_eq_some, same, intact.known_eq_some]

/-- What is lost when an entry is made: its own value if the table is full, or the entry whose
bucket it takes because no bucket is left that was never used. -/
def Loses (htab : HsearchData) (key data name : CString) : Prop :=
  known htab key = none ∧ htab.filled = htab.size ∧ name = key ∨
    ¬Safe htab (.enter key data) ∧
      ∃ used old, htab.table (firstHash htab.size key) = .live used name old

theorem Sound.delete_known (sound : Sound htab) (key : CString) :
    ∃ result after, hdeleteR htab key = some (result, after) ∧ Sound after ∧
      known after key = none ∧ ∀ name ≠ key, known after name = known htab name := by
  obtain ⟨output, after, stepped, sound'⟩ := sound.exists_step (.delete key)
  obtain ⟨⟨result, after'⟩, deleted, same⟩ := Option.map_eq_some_iff.mp stepped
  cases same
  refine ⟨result, after', deleted, sound', ?_, fun name other => ?_⟩
  · rw [sound'.intact.known_eq_none]
    exact fun value live => (sound.intact.live_delete stepped live).1 rfl
  · refine sound.intact.known_eq sound'.intact fun value => ?_
    constructor
    · exact fun live => (sound.intact.live_delete stepped live).2
    · intro live
      by_cases present : ∃ old, Live htab key old
      · obtain ⟨old, i, used, here⟩ := present
        simp only [hdeleteR, hsearchFind, sound.intact.locate_found here, here, Option.some.injEq,
          Prod.mk.injEq] at deleted
        obtain ⟨-, rfl⟩ := deleted
        exact (sound.intact.live_setDeleted here _ _ _).mpr ⟨other, live⟩
      · obtain ⟨stop, located, -⟩ :=
          sound.intact.locate_missing fun old here => present ⟨old, here⟩
        simp only [hdeleteR, hsearchFind, located] at deleted
        cases deleted
        exact live

/-- The variables after an entry was written over a bucket: those that were not in it, and its
own. -/
theorem Intact.live_overwrite (intact : Intact htab) {i : Nat} {data : CString} {hval filled : Nat}
    (only : ∀ {i' used old}, htab.table i' = .live used key old → i' = i) (name value : CString) :
    Live { htab.setBucket i (.live hval key data) with filled := filled } name value ↔
      if name = key then value = data
      else Live htab name value ∧ ∀ used old, htab.table i ≠ .live used name old := by
  have written : (htab.setBucket i (.live hval key data)).table i = .live hval key data :=
    HsearchData.setBucket_same ..
  have kept {i' : Nat} (other : i' ≠ i) :
      (htab.setBucket i (.live hval key data)).table i' = htab.table i' :=
    HsearchData.setBucket_other _ _ other
  split
  case isTrue same =>
    subst same
    constructor
    · rintro ⟨i', used, live⟩
      by_cases here : i' = i
      · subst here
        cases written.symm.trans live
        rfl
      · exact absurd (only ((kept here).symm.trans live)) here
    · rintro rfl
      exact ⟨i, hval, written⟩
  case isFalse different =>
    constructor
    · rintro ⟨i', used, live⟩
      have elsewhere : i' ≠ i := by
        rintro rfl
        cases written.symm.trans live
        exact different rfl
      have before := (kept elsewhere).symm.trans live
      exact ⟨⟨i', used, before⟩, fun used' old there => elsewhere (intact.unique before there)⟩
    · rintro ⟨⟨i', used, live⟩, absent⟩
      have elsewhere : i' ≠ i := by
        rintro rfl
        exact absent used value live
      exact ⟨i', used, (kept elsewhere).trans live⟩

theorem Intact.known_overwrite (intact : Intact htab) {i : Nat} {data : CString} {hval filled : Nat}
    (intactAfter : Intact after)
    (writes : after = { htab.setBucket i (.live hval key data) with filled := filled })
    (only : ∀ {i' used old}, htab.table i' = .live used key old → i' = i) :
    known after key = some data ∧ ∀ name ≠ key,
      ((∃ used old, htab.table i = .live used name old) → known after name = none) ∧
      ((∀ used old, htab.table i ≠ .live used name old) →
        known after name = known htab name) := by
  subst writes
  refine ⟨?_, fun name other => ⟨?_, fun absent => ?_⟩⟩
  · rw [intactAfter.known_eq_some, intact.live_overwrite only, if_pos rfl]
  · rintro ⟨used, old, there⟩
    rw [intactAfter.known_eq_none]
    intro value live
    rw [intact.live_overwrite only, if_neg other] at live
    exact live.2 used old there
  · refine intact.known_eq intactAfter fun value => ?_
    rw [intact.live_overwrite only, if_neg other, and_iff_left absent]

/-- The bucket of a new entry holds just what is lost. -/
theorem Sound.slot_loses (sound : Sound htab) {stop : Nat} (nowhere : ∀ old, ¬Live htab key old)
    (located : locate htab key = some (.stopped stop)) (room : htab.filled ≠ htab.size)
    (data name : CString) :
    (∃ used old, htab.table
      (if htab.table (firstHash htab.size key) = .deleted then firstHash htab.size key else stop) =
        .live used name old) ↔ Loses htab key data name := by
  obtain ⟨stop', located', ends⟩ := sound.intact.locate_missing nowhere
  cases located.symm.trans located'
  have back (crowded : ¬Safe htab (.enter key data)) : stop = firstHash htab.size key := by
    rcases ends with ⟨empty, j, within, here, -⟩ | ⟨first, -⟩
    · have bounds := probePath_bounds sound.intact.size key within
      rw [here] at bounds
      exact absurd (.inr (.inr (.inr ⟨stop, bounds.1, bounds.2, empty⟩))) crowded
    · refine first fun one => crowded ?_
      obtain ⟨m, rep⟩ := sound.counted one
      exact rep.safe_of_one one _
  constructor
  · rintro ⟨used, old, there⟩
    have crowded : ¬Safe htab (.enter key data) := by
      rintro (⟨value, live⟩ | full | deleted | ⟨i, low, high, empty⟩)
      · exact nowhere value live
      · exact room full
      · rw [if_pos deleted, deleted] at there
        cases there
      · split at there
        case isTrue deleted =>
          rw [deleted] at there
          cases there
        case isFalse =>
          rcases ends with ⟨unused, -⟩ | ⟨-, all⟩
          · rw [unused] at there
            cases there
          · exact all i low high empty
    refine .inr ⟨crowded, used, old, ?_⟩
    rw [back crowded, ite_self] at there
    exact there
  · rintro (⟨-, full, -⟩ | ⟨crowded, used, old, there⟩)
    · exact absurd full room
    · refine ⟨used, old, ?_⟩
      rw [back crowded, ite_self]
      exact there

/-- Making an entry gives its variable the value and leaves every other one, unless it is lost. -/
theorem Sound.enter_known (sound : Sound htab) (key data : CString) :
    ∃ result after, hsearchEnter htab key data = some (result, after) ∧ Sound after ∧ ∀ name,
      (Loses htab key data name → known after name = none) ∧
      (¬Loses htab key data name → (name = key → known after name = some data) ∧
        (name ≠ key → known after name = known htab name)) := by
  obtain ⟨output, after, stepped, sound'⟩ := sound.exists_step (.enter key data)
  obtain ⟨⟨result, after'⟩, entered, same⟩ := Option.map_eq_some_iff.mp stepped
  cases same
  have intact := sound.intact
  refine ⟨result, after', entered, sound', ?_⟩
  by_cases present : ∃ old, Live htab key old
  · obtain ⟨old, i, used, here⟩ := present
    have inTable : known htab key = some old := intact.known_eq_some.mpr ⟨i, used, here⟩
    have nothing (name : CString) : ¬Loses htab key data name := by
      rintro (⟨missing, -⟩ | ⟨crowded, -⟩)
      · rw [inTable] at missing
        cases missing
      · exact crowded (.inl ⟨old, i, used, here⟩)
    simp only [hsearchEnter, intact.locate_found here, Option.some.injEq, Prod.mk.injEq] at entered
    obtain ⟨own, others⟩ := intact.known_overwrite sound'.intact entered.2.symm
      fun live => intact.unique live here
    refine fun name => ⟨fun loses => absurd loses (nothing name), fun _ => ⟨?_, fun other => ?_⟩⟩
    · rintro rfl
      exact own
    · refine (others name other).2 fun used' old' there => other ?_
      cases here.symm.trans there
      rfl
  · have nowhere : ∀ old, ¬Live htab key old := fun old live => present ⟨old, live⟩
    have missing : known htab key = none := intact.known_eq_none.mpr nowhere
    obtain ⟨stop, located, ends⟩ := intact.locate_missing nowhere
    simp only [hsearchEnter, located] at entered
    by_cases full : htab.filled = htab.size
    · rw [if_pos full] at entered
      cases entered
      have refused (name : CString) : Loses htab key data name ↔ name = key := by
        constructor
        · rintro (⟨-, -, same⟩ | ⟨crowded, -⟩)
          · exact same
          · exact absurd (.inr (.inl full)) crowded
        · exact fun same => .inl ⟨missing, full, same⟩
      intro name
      rw [refused]
      refine ⟨?_, fun other => ⟨fun same => absurd same other, fun _ => rfl⟩⟩
      rintro rfl
      exact missing
    · rw [if_neg full] at entered
      simp only [Option.some.injEq, Prod.mk.injEq] at entered
      obtain ⟨own, others⟩ := intact.known_overwrite sound'.intact entered.2.symm
        fun live => absurd ⟨_, _, live⟩ (nowhere _)
      have holds := sound.slot_loses nowhere located full data
      intro name
      rw [← holds]
      by_cases same : name = key
      · subst same
        refine ⟨?_, fun _ => ⟨fun _ => own, fun other => absurd rfl other⟩⟩
        rintro ⟨used, old, there⟩
        exact absurd ⟨_, _, there⟩ (nowhere old)
      · refine ⟨(others name same).1, fun absent => ⟨fun equal => absurd equal same, fun _ => ?_⟩⟩
        exact (others name same).2 fun used old there => absent ⟨used, old, there⟩

/-! ## Items -/

namespace Item

def about : Item → Option CString
  | .comment => none
  | .delete name => some name
  | .entry name _ => some name

def value : Item → Option CString
  | .entry _ value => some value
  | _ => none

def nameless : Item → Bool
  | .entry [] _ => true
  | _ => false

end Item

/-- The items of a text, up to the first one to stop at. -/
def itemsUntil (stop : Item → Bool) (sep : UInt8) (dp : List UInt8) : Option (List Item) :=
  match _parsed : parseItem sep dp with
  | none => none
  | some (item, rest) =>
    if stop item ∨ rest.head? = none ∨ rest.head? = some 0 then some [item]
    else (itemsUntil stop sep rest).map (item :: ·)
termination_by dp.length
decreasing_by exact parseItem_shorter _parsed

/-- The last value that items give a variable. -/
def lastValue (name : CString) (items : List Item) : Option CString :=
  (items.filter fun item => item.about = some name).getLast?.bind Item.value

/-- The first item about a variable, or the entry without a name in front of it. -/
def firstItem (name : CString) (items : List Item) : Option Item :=
  items.find? fun item => item.nameless || decide (item.about = some name)

/-- An entry without a name comes before any item about the variable. -/
def CutOff (name : CString) (items : List Item) : Prop :=
  (firstItem name items).any Item.nameless = true

/-- The value by the first item about a variable; it stays what it was if it is cut off. -/
def firstValue (name : CString) (items : List Item) (old : Option CString) : Option CString :=
  (firstItem name items).elim none fun item => if item.nameless then old else item.value

/-- The turns of the importer on the items that it comes to. -/
def applyItems (htab : HsearchData) (vars : VarSet) :
    List Item → Option (Bool × HsearchData × VarSet)
  | [] => some (true, htab, vars)
  | item :: rest =>
    match applyItem htab vars item with
    | none => none
    | some .einval => some (false, htab, vars)
    | some (.done htab vars) => applyItems htab vars rest

theorem applyItem_nameless (htab : HsearchData) (vars : VarSet) {item : Item}
    (nameless : item.nameless = true) : applyItem htab vars item = some .einval := by
  cases item with
  | comment => cases nameless
  | delete name => cases nameless
  | entry name value =>
    cases name with
    | nil => rfl
    | cons c name => cases nameless

theorem applyItem_named {vars : VarSet} {item : Item}
    (ended : applyItem htab vars item = some .einval) : item.nameless = true := by
  cases item with
  | comment => cases ended
  | delete name =>
    simp only [applyItem] at ended
    split at ended
    · cases deleted : hdeleteR htab name <;> simp [deleted] at ended
    · cases ended
  | entry name value =>
    cases name with
    | nil => rfl
    | cons c name =>
      simp only [applyItem, reduceCtorEq, if_false] at ended
      split at ended
      · cases entered : hsearchEnter htab (c :: name) value <;> simp [entered] at ended
      · cases ended

theorem itemsUntil_cons {stop : Item → Bool} {sep : UInt8} {dp rest : List UInt8} {item : Item}
    (parsed : parseItem sep dp = some (item, rest)) :
    itemsUntil stop sep dp =
      if stop item ∨ rest.head? = none ∨ rest.head? = some 0 then some [item]
      else (itemsUntil stop sep rest).map (item :: ·) := by
  rw [itemsUntil]
  split
  · rename_i failed
    rw [parsed] at failed
    cases failed
  · rename_i item' rest' parsed'
    cases parsed.symm.trans parsed'
    rfl

theorem itemsUntil_none {stop : Item → Bool} {sep : UInt8} {dp : List UInt8}
    (parsed : parseItem sep dp = none) : itemsUntil stop sep dp = none := by
  rw [itemsUntil]
  split
  · rfl
  · rename_i item rest parsed'
    rw [parsed] at parsed'
    cases parsed'

/-- The loop of the importer is its turns on the items up to an entry without a name. -/
theorem importLoop_items (sep : UInt8) (htab : HsearchData) (vars : VarSet) (dp : List UInt8) :
    importLoop sep htab vars dp =
      (itemsUntil Item.nameless sep dp).bind (applyItems htab vars) := by
  fun_induction importLoop sep htab vars dp with
  | case1 htab vars dp failed => rw [itemsUntil_none failed, Option.bind_none]
  | case2 htab vars dp item rest parsed failed =>
    symm
    rw [Option.bind_eq_none_iff, itemsUntil_cons parsed]
    intro items listed
    have first : ∃ later, items = item :: later := by
      split at listed
      · exact ⟨[], (Option.some.inj listed).symm⟩
      · obtain ⟨later, -, same⟩ := Option.map_eq_some_iff.mp listed
        exact ⟨later, same.symm⟩
    obtain ⟨later, rfl⟩ := first
    rw [applyItems, failed]
  | case3 htab vars dp item rest parsed ended =>
    rw [itemsUntil_cons parsed, if_pos (.inl (applyItem_named ended)), Option.bind_some,
      applyItems, ended]
  | case4 htab vars dp item rest parsed after vars' applied ends =>
    rw [itemsUntil_cons parsed, if_pos (.inr ends), Option.bind_some, applyItems, applied]
    rfl
  | case5 htab vars dp item rest parsed after vars' applied goesOn ih =>
    have named : ¬item.nameless = true := by
      intro nameless
      rw [applyItem_nameless htab vars nameless] at applied
      cases applied
    rw [itemsUntil_cons parsed, if_neg (not_or.mpr ⟨named, goesOn⟩), ih]
    cases itemsUntil Item.nameless sep rest with
    | none => rfl
    | some items =>
      rw [Option.map_some, Option.bind_some, Option.bind_some, applyItems, applied]

/-! ## The first item about a variable -/

section First

variable {name : CString} {item : Item} {rest : List Item}

theorem firstItem_skip (named : item.nameless = false) (other : item.about ≠ some name) :
    firstItem name (item :: rest) = firstItem name rest := by
  rw [firstItem, List.find?_cons_of_neg (by simp [named, other])]
  rfl

theorem firstItem_here (about : item.about = some name) :
    firstItem name (item :: rest) = some item := by
  rw [firstItem, List.find?_cons_of_pos (by simp [about])]

theorem firstValue_skip (named : item.nameless = false) (other : item.about ≠ some name)
    (old : Option CString) : firstValue name (item :: rest) old = firstValue name rest old := by
  rw [firstValue, firstItem_skip named other]
  rfl

theorem firstValue_here (named : item.nameless = false) (about : item.about = some name)
    (old : Option CString) : firstValue name (item :: rest) old = item.value := by
  simp [firstValue, firstItem_here about, named]

theorem firstValue_nameless (nameless : item.nameless = true) (old : Option CString) :
    firstValue name (item :: rest) old = old := by
  simp [firstValue, firstItem, nameless]

theorem CutOff.firstValue_eq (cut : CutOff name rest) (old : Option CString) :
    firstValue name rest old = old := by
  unfold CutOff at cut
  unfold firstValue
  cases first : firstItem name rest with
  | none => simp [first] at cut
  | some item =>
    rw [first, Option.any_some] at cut
    simp [cut]

theorem firstValue_irrelevant (met : ¬CutOff name rest) (old old' : Option CString) :
    firstValue name rest old = firstValue name rest old' := by
  unfold CutOff at met
  unfold firstValue
  cases first : firstItem name rest with
  | none => rfl
  | some item =>
    rw [first, Option.any_some] at met
    simp [met]

end First

/-! ## The turns of an import -/

/-- What is lost in a turn: an entry that is to be made loses something. -/
def LosesNow (htab : HsearchData) (left : VarSet) : Item → CString → Prop
  | .entry key data, name => some key ∈ left ∧ Loses htab key data name
  | _, _ => False

/-- A variable is lost in a turn, and its own is not to come. -/
def Lost (htab : HsearchData) (left : VarSet) : List Item → CString → Prop
  | [], _ => False
  | item :: rest, name =>
    match applyItem htab left item with
    | some (.done after left') =>
      LosesNow htab left item name ∧ (some name ∈ left' → CutOff name rest) ∨
        Lost after left' rest name
    | _ => False

/-- What a turn does to the names left, and to the variables. -/
structure Turned (htab : HsearchData) (left : VarSet) (item : Item) (after : HsearchData)
    (left' : VarSet) : Prop where
  applied : applyItem htab left item = some (.done after left')
  sound : Sound after
  listed : left' ≠ []
  struck : ∀ name, some name ∈ left' ↔ some name ∈ left ∧ item.about ≠ some name
  lost : ∀ name, LosesNow htab left item name → known after name = none
  own : ∀ name, ¬LosesNow htab left item name → some name ∈ left → item.about = some name →
    known after name = item.value
  others : ∀ name, ¬LosesNow htab left item name → ¬(some name ∈ left ∧ item.about = some name) →
    known after name = known htab name

theorem dropVarFromSet_listed (listed : left ≠ []) (name : CString) :
    (dropVarFromSet name left).1 = true ↔ some name ∈ left := by
  rw [dropVarFromSet, if_neg (by simpa using listed)]
  simp

theorem dropVarFromSet_left (listed : left ≠ []) (name : CString) :
    (dropVarFromSet name left).2 ≠ [] ∧
      ∀ other, some other ∈ (dropVarFromSet name left).2 ↔
        some other ∈ left ∧ some name ≠ some other := by
  rw [dropVarFromSet, if_neg (by simpa using listed)]
  refine ⟨by simpa using listed, fun other => ?_⟩
  simp only [List.mem_map]
  constructor
  · rintro ⟨var, member, same⟩
    split at same
    · cases same
    · rename_i different
      subst same
      exact ⟨member, fun equal => different equal.symm⟩
  · rintro ⟨member, different⟩
    exact ⟨some other, member, if_neg fun same => different same.symm⟩

theorem Sound.turned_unlisted (sound : Sound htab) (listed : left ≠ []) {item : Item}
    (named : item.nameless = false) (about : item.about = some key) (absent : some key ∉ left) :
    Turned htab left item htab (dropVarFromSet key left).2 := by
  have skip : ¬(dropVarFromSet key left).1 = true := by
    rwa [dropVarFromSet_listed listed key]
  obtain ⟨listed', struck⟩ := dropVarFromSet_left listed key
  have safe (name : CString) : ¬LosesNow htab left item name := by
    cases item with
    | entry other data =>
      cases about
      exact fun loses => absent loses.1
    | _ => exact id
  refine ⟨?_, sound, listed', fun name => ?_, fun name loses => absurd loses (safe name), ?_,
    fun name _ _ => rfl⟩
  · cases item with
    | comment => cases about
    | delete other =>
      cases about
      simp only [Env.applyItem, if_neg skip]
    | entry other data =>
      cases about
      have nonempty : key ≠ [] := by
        rintro rfl
        cases named
      simp only [Env.applyItem, if_neg nonempty, if_neg skip]
  · rw [about, struck]
  · intro name _ here same
    rw [about] at same
    exact absurd (Option.some.inj same ▸ here) absent

/-- A turn on an item that has a name. -/
theorem Sound.turned (sound : Sound htab) (listed : left ≠ []) {item : Item}
    (named : item.nameless = false) :
    ∃ after left', Turned htab left item after left' := by
  cases item with
  | comment =>
    refine ⟨htab, left, rfl, sound, listed, fun name => ?_, fun name loses => loses.elim,
      fun name _ _ about => ?_, fun name _ _ => rfl⟩
    · simp [Item.about]
    · cases about
  | delete key =>
    obtain ⟨listed', struck⟩ := dropVarFromSet_left listed key
    by_cases member : some key ∈ left
    · obtain ⟨result, after, deleted, sound', gone, others⟩ := sound.delete_known key
      have process := (dropVarFromSet_listed listed key).mpr member
      refine ⟨after, _, ?_, sound', listed', struck, fun name loses => loses.elim, ?_, ?_⟩
      · simp only [Env.applyItem, process, if_true, deleted, Option.map_some]
      · intro name _ _ about
        cases about
        exact gone
      · intro name _ elsewhere
        exact others name fun same => elsewhere ⟨same ▸ member, congrArg some same.symm⟩
    · exact ⟨htab, _, sound.turned_unlisted listed named rfl member⟩
  | entry key data =>
    have nonempty : key ≠ [] := by
      rintro rfl
      cases named
    obtain ⟨listed', struck⟩ := dropVarFromSet_left listed key
    by_cases member : some key ∈ left
    · obtain ⟨result, after, entered, sound', values⟩ := sound.enter_known key data
      have process := (dropVarFromSet_listed listed key).mpr member
      refine ⟨after, _, ?_, sound', listed', struck, ?_, ?_, ?_⟩
      · simp only [Env.applyItem, if_neg nonempty, process, if_true, entered, Option.map_some]
      · exact fun name loses => (values name).1 loses.2
      · intro name kept _ about
        cases about
        exact ((values key).2 fun loses => kept ⟨member, loses⟩).1 rfl
      · intro name kept elsewhere
        exact ((values name).2 fun loses => kept ⟨member, loses⟩).2
          fun same => elsewhere ⟨same ▸ member, congrArg some same.symm⟩
    · exact ⟨htab, _, sound.turned_unlisted listed named rfl member⟩

/-- The names that were not struck are deleted. -/
theorem Sound.deleteRemaining_known (sound : Sound htab) (left : VarSet) :
    ∃ after, Env.deleteRemaining htab left = some after ∧ Sound after ∧ ∀ name,
      (some name ∈ left → known after name = none) ∧
      (some name ∉ left → known after name = known htab name) := by
  induction left generalizing htab with
  | nil => exact ⟨htab, rfl, sound, fun name => ⟨nofun, fun _ => rfl⟩⟩
  | cons var left ih =>
    cases var with
    | none =>
      obtain ⟨after, deleted, sound', values⟩ := ih sound
      refine ⟨after, deleted, sound', fun name => ?_⟩
      simpa using values name
    | some key =>
      obtain ⟨result, next, deletedKey, soundNext, gone, others⟩ := sound.delete_known key
      obtain ⟨after, deleted, sound', values⟩ := ih soundNext
      refine ⟨after, by rw [Env.deleteRemaining, deletedKey, Option.bind_some, deleted], sound',
        fun name => ?_⟩
      by_cases later : some name ∈ left
      · exact ⟨fun _ => (values name).1 later,
          fun absent => absurd (List.mem_cons_of_mem _ later) absent⟩
      · have kept := (values name).2 later
        constructor
        · intro member
          rcases List.mem_cons.mp member with same | member
          · obtain rfl := Option.some.inj same
            rw [kept, gone]
          · exact absurd member later
        · intro absent
          rw [kept]
          refine others name ?_
          rintro rfl
          exact absent List.mem_cons_self

/-- What an import of items makes of a variable. -/
structure Imported (htab : HsearchData) (left : VarSet) (items : List Item) (after : HsearchData)
    (name : CString) : Prop where
  lost : Lost htab left items name → known after name = none
  listed : ¬Lost htab left items name → some name ∈ left →
    known after name = firstValue name items (known htab name)
  others : ¬Lost htab left items name → some name ∉ left → known after name = known htab name

/-- A turn in front of an import. -/
theorem Turned.imported {next : HsearchData} {left' : VarSet} {item : Item} {rest : List Item}
    {name : CString} (named : item.nameless = false) (turned : Turned htab left item next left')
    (later : Imported next left' rest after name) :
    Imported htab left (item :: rest) after name := by
  have lost_iff : Lost htab left (item :: rest) name ↔
      LosesNow htab left item name ∧ (some name ∈ left' → CutOff name rest) ∨
        Lost next left' rest name := by
    rw [Lost, turned.applied]
  have struck := turned.struck name
  constructor
  case lost =>
    intro lost
    by_cases laterLost : Lost next left' rest name
    · exact later.lost laterLost
    · obtain ⟨loses, cut⟩ := (lost_iff.mp lost).resolve_right laterLost
      by_cases member : some name ∈ left'
      · rw [later.listed laterLost member, (cut member).firstValue_eq, turned.lost name loses]
      · rw [later.others laterLost member, turned.lost name loses]
  case listed =>
    intro kept member
    obtain ⟨keptNow, keptLater⟩ := not_or.mp (mt lost_iff.mpr kept)
    by_cases about : item.about = some name
    · have absent : some name ∉ left' := fun there => (struck.mp there).2 about
      have safe : ¬LosesNow htab left item name :=
        fun loses => keptNow ⟨loses, fun there => absurd there absent⟩
      rw [later.others keptLater absent, turned.own name safe member about,
        firstValue_here named about]
    · rw [later.listed keptLater (struck.mpr ⟨member, about⟩), firstValue_skip named about]
      by_cases loses : LosesNow htab left item name
      · exact firstValue_irrelevant (fun cut => keptNow ⟨loses, fun _ => cut⟩) _ _
      · rw [turned.others name loses fun both => about both.2]
  case others =>
    intro kept absent
    obtain ⟨keptNow, keptLater⟩ := not_or.mp (mt lost_iff.mpr kept)
    have absent' : some name ∉ left' := fun there => absent (struck.mp there).1
    have safe : ¬LosesNow htab left item name :=
      fun loses => keptNow ⟨loses, fun there => absurd there absent'⟩
    rw [later.others keptLater absent', turned.others name safe fun both => absent both.1]

theorem Sound.imported (sound : Sound htab) (listed : left ≠ []) (items : List Item) :
    ∃ ok after, finishImport (applyItems htab left items) = some (ok, some after) ∧
      ∀ name, Imported htab left items after name := by
  induction items generalizing htab left with
  | nil =>
    obtain ⟨after, deleted, -, values⟩ := sound.deleteRemaining_known left
    refine ⟨true, after, by rw [applyItems, finishImport, deleted, Option.map_some], fun name => ?_⟩
    exact ⟨fun lost => lost.elim, fun _ => (values name).1, fun _ => (values name).2⟩
  | cons item rest ih =>
    by_cases nameless : item.nameless = true
    · have ended := applyItem_nameless htab left nameless
      refine ⟨false, htab, by rw [applyItems, ended, finishImport], fun name => ⟨?_, ?_, ?_⟩⟩
      · intro lost
        rw [Lost, ended] at lost
        exact lost.elim
      · exact fun _ _ => (firstValue_nameless nameless _).symm
      · exact fun _ _ => rfl
    · have named := Bool.eq_false_iff.mpr nameless
      obtain ⟨next, left', turned⟩ := sound.turned listed named
      obtain ⟨ok, after, finished, imported⟩ := ih turned.sound turned.listed
      refine ⟨ok, after, by rw [applyItems, turned.applied]; exact finished, fun name => ?_⟩
      exact turned.imported named (imported name)

/-! ## Import of a list of variables -/

/-- The items of a text; an empty one has none. -/
def textItems (sep : UInt8) (crlfIsLf : Bool) : List UInt8 → Option (List Item)
  | [] => some []
  | c :: rest => itemsUntil (fun _ => false) sep (importedText crlfIsLf (c :: rest))

/-- What an import of listed variables is expected to do: each has the last value the text gives
it, and every other variable keeps its value. -/
def ImportsListed (table : Option HsearchData) (start : HsearchData) (text : List UInt8)
    (sep : UInt8) (crlfIsLf : Bool) (vars : List CString) : Prop :=
  ∃ items ok after, textItems sep crlfIsLf text = some items ∧
    himportR table text sep true crlfIsLf vars = some (ok, some after) ∧ ∀ name,
      (name ∈ vars → known after name = lastValue name items) ∧
      (name ∉ vars → known after name = known start name)

/-- The first item about a listed variable leaves it with its last value, and nothing is lost. An
empty text is left at once, so there must be nothing to delete. -/
def FirstIsLast (start : HsearchData) (text : List UInt8) (sep : UInt8) (crlfIsLf : Bool)
    (vars : List CString) : Prop :=
  (text = [] → ∀ name ∈ vars, known start name = none) ∧
  (text ≠ [] → ∃ items met, textItems sep crlfIsLf text = some items ∧
    itemsUntil Item.nameless sep (if crlfIsLf then removeCrs text else text) = some met ∧ ∀ name,
      (name ∈ vars →
        (Lost start (vars.map some) met name → lastValue name items = none) ∧
        (¬Lost start (vars.map some) met name →
          firstValue name met (known start name) = lastValue name items)) ∧
      (name ∉ vars → Lost start (vars.map some) met name → known start name = none))

theorem Imported.expected_iff {start : HsearchData} {vars : List CString} {items met : List Item}
    {name : CString} (imported : Imported start (vars.map some) met after name) :
    (name ∈ vars → known after name = lastValue name items) ∧
        (name ∉ vars → known after name = known start name) ↔
      (name ∈ vars →
        (Lost start (vars.map some) met name → lastValue name items = none) ∧
        (¬Lost start (vars.map some) met name →
          firstValue name met (known start name) = lastValue name items)) ∧
      (name ∉ vars → Lost start (vars.map some) met name → known start name = none) := by
  have inList : some name ∈ vars.map some ↔ name ∈ vars := by simp
  by_cases member : name ∈ vars
  · simp only [member, not_true_eq_false, IsEmpty.forall_iff, and_true, forall_const]
    by_cases lost : Lost start (vars.map some) met name
    · rw [imported.lost lost]
      simp only [lost, not_true_eq_false, IsEmpty.forall_iff, and_true, forall_const]
      exact eq_comm
    · rw [imported.listed lost (inList.mpr member)]
      simp only [lost, not_false_eq_true, IsEmpty.forall_iff, true_and, forall_const]
  · simp only [member, not_false_eq_true, IsEmpty.forall_iff, true_and, forall_const]
    by_cases lost : Lost start (vars.map some) met name
    · rw [imported.lost lost]
      simp only [lost, forall_const]
      exact eq_comm
    · rw [imported.others lost (mt inList.mp member)]
      simp only [lost, IsEmpty.forall_iff]

/-- With `H_NOCLEAR` and a list, an import changes the listed variables to their last values, and no
other one, exactly if for each of them its first item does, and nothing is lost. -/
theorem himportR_listed_iff (table : Option HsearchData) (start : HsearchData) (text : List UInt8)
    (sep : UInt8) (crlfIsLf : Bool) (vars : List CString)
    (started : startTable table true text.length = some start) (sound : Sound start)
    (listed : vars ≠ []) :
    ImportsListed table start text sep crlfIsLf vars ↔
      FirstIsLast start text sep crlfIsLf vars := by
  by_cases empty : text = []
  · subst empty
    have untouched : himportR table [] sep true crlfIsLf vars = some (true, some start) := by
      simp only [startTable, List.length_nil, if_true] at started
      simp only [himportR, started, List.length_nil, if_true]
    constructor
    · rintro ⟨items, ok, after, found, imported, expected⟩
      cases found
      cases untouched.symm.trans imported
      exact ⟨fun _ name member => (expected name).1 member, fun other => absurd rfl other⟩
    · rintro ⟨nothing, -⟩
      refine ⟨[], true, start, rfl, untouched, fun name => ⟨nothing rfl name, fun _ => rfl⟩⟩
  · have ran := himportR_start sep crlfIsLf vars started empty
    have listed' : vars.map some ≠ [] := by simpa using listed
    rw [importLoop_items] at ran
    constructor
    · rintro ⟨items, ok, after, found, returned, expected⟩
      refine ⟨fun none => absurd none empty, fun _ => ?_⟩
      cases comes : itemsUntil Item.nameless sep (if crlfIsLf then removeCrs text else text) with
      | none =>
        rw [comes] at ran
        cases ran.symm.trans returned
      | some met =>
        rw [comes, Option.bind_some] at ran
        obtain ⟨ok', after', finished, imported⟩ := sound.imported listed' met
        cases (ran.trans finished).symm.trans returned
        exact ⟨items, met, found, rfl, fun name => (imported name).expected_iff.mp (expected name)⟩
    · rintro ⟨-, settles⟩
      obtain ⟨items, met, found, comes, settles⟩ := settles empty
      rw [comes, Option.bind_some] at ran
      obtain ⟨ok, after, finished, imported⟩ := sound.imported listed' met
      refine ⟨items, ok, after, found, ran.trans finished, fun name => ?_⟩
      exact (imported name).expected_iff.mpr (settles name)

/-- The text `a=1` alone is imported as it says. -/
theorem himportR_listed_once :
    ImportsListed (some fiveBuckets) fiveBuckets [97, equalsSign, 49, lineFeed] lineFeed false
      [[97]] := by
  have found : itemsUntil (fun _ => false) lineFeed [97, equalsSign, 49, lineFeed] =
      some [.entry [97] [49]] := by
    rw [itemsUntil_cons rfl]
    rfl
  have comes : itemsUntil Item.nameless lineFeed [97, equalsSign, 49, lineFeed] =
      some [.entry [97] [49]] := by
    rw [itemsUntil_cons rfl]
    rfl
  have nothing (name : CString) : ¬Lost fiveBuckets [some [97]] [.entry [97] [49]] name := by
    rintro (⟨⟨-, loses⟩, -⟩ | none)
    · rcases loses with ⟨-, full, -⟩ | ⟨crowded, -⟩
      · cases full
      · exact crowded (.inr (.inr (.inr ⟨1, by decide, by decide, rfl⟩)))
    · exact none.elim
  refine (himportR_listed_iff (some fiveBuckets) fiveBuckets _ lineFeed false [[97]] rfl
    (hcreateR_sound hcreateR_five) (by simp)).mpr ⟨nofun, fun _ => ?_⟩
  refine ⟨_, _, found, comes, fun name => ⟨fun member => ?_, fun _ lost => ?_⟩⟩
  · obtain rfl := List.mem_singleton.mp member
    exact ⟨fun lost => absurd lost (nothing _), fun _ => rfl⟩
  · exact absurd lost (nothing name)

/-- Of the text `a=1`, `a=2` the first value is taken for a listed variable. -/
theorem himportR_listed_twice :
    ¬ImportsListed (some fiveBuckets) fiveBuckets
      [97, equalsSign, 49, lineFeed, 97, equalsSign, 50, lineFeed] lineFeed false [[97]] := by
  rintro ⟨items, ok, after, found, returned, expected⟩
  have last : (some [Item.entry [97] [49], .entry [97] [50]]) = some items := by
    rw [← found, textItems, importedText, if_neg (by decide), itemsUntil_cons rfl,
      itemsUntil_cons rfl]
    rfl
  have once : himportR (some fiveBuckets)
      [97, equalsSign, 49, lineFeed, 97, equalsSign, 50, lineFeed] lineFeed true false [[97]] =
      finishImport (applyItems fiveBuckets [some [97]]
        [.entry [97] [49], .entry [97] [50]]) := by
    rw [himportR_start lineFeed false [[97]] rfl (by simp), importLoop_items, if_neg (by decide),
      itemsUntil_cons rfl, itemsUntil_cons rfl]
    rfl
  obtain rfl := Option.some.inj last
  rw [once] at returned
  cases returned
  exact absurd ((expected [97]).1 List.mem_cons_self) (by decide)

end HrppBoot.Env
