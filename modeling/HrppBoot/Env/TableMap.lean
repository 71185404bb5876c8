import HrppBoot.Env.Intact
import Mathlib.Data.Finmap

/-!
# The hash table as a finite map

`Represents` relates an intact table to the finite map of its entries. Searches find exactly the
keys of the map, and every operation acts on the map as it should, with one exception. When no
bucket is left that was never used, the search for a new key comes back to the first bucket it
tried; unless that bucket is deleted, entering the key overwrites the entry there. `Safe` excludes
that step, and `hsearch_behaves_as_map` is the result for whole histories. Tables stay intact in
every history.
-/

namespace HrppBoot.Env

/-- The finite maps a table stands for. -/
abbrev EnvMap := Finmap fun _ : CString => CString

/-- The table stands for the map. -/
structure Represents (htab : HsearchData) (m : EnvMap) : Prop extends Intact htab where
  entries : ∀ key data, m.lookup key = some data ↔ Live htab key data
  filled : htab.filled = m.keys.card

theorem keys_insert (m : EnvMap) (key data : CString) :
    (m.insert key data).keys = Insert.insert key m.keys := by
  ext other
  simp [Finmap.mem_keys, Finmap.mem_insert]

variable {key : CString}

theorem Represents.missing {htab : HsearchData} {m : EnvMap} (rep : Represents htab m)
    (absent : m.lookup key = none) (data : CString) : ¬Live htab key data := by
  intro live
  rw [(rep.entries key data).mpr live] at absent
  cases absent

theorem Represents.setLive {htab : HsearchData} {m : EnvMap} (rep : Represents htab m) {i j : Nat}
    (data : CString) (within : j < htab.size) (here : probePath htab.size key j = i)
    (earlier : ∀ j' < j, htab.table (probePath htab.size key j') ≠ .empty)
    (own : ∀ {used other old}, htab.table i = .live used other old → other = key)
    (only : ∀ {i' used old}, htab.table i' = .live used key old → i' = i) {filled : Nat}
    (count : filled = (m.insert key data).keys.card) :
    Represents { htab.setBucket i (.live (firstHash htab.size key) key data) with filled := filled }
      (m.insert key data) := by
  refine ⟨rep.toIntact.setLive data within here earlier only filled, ?_, count⟩
  intro key' data'
  rw [live_setLive own only]
  by_cases same : key' = key
  · subst same
    rw [Finmap.lookup_insert, if_pos rfl, Option.some.injEq]
    exact eq_comm
  · rw [Finmap.lookup_insert_of_ne _ same, if_neg same, rep.entries]

theorem Represents.setDeleted {htab : HsearchData} {m : EnvMap} (rep : Represents htab m)
    {i used : Nat} {data : CString} (live : htab.table i = .live used key data) :
    Represents { htab.setBucket i .deleted with filled := htab.filled - 1 } (m.erase key) := by
  have present : key ∈ m := Finmap.mem_of_lookup_eq_some ((rep.entries key data).mpr ⟨i, used, live⟩)
  refine ⟨rep.toIntact.setDeleted live _, ?_, ?_⟩
  · intro key' data'
    rw [rep.toIntact.live_setDeleted live]
    by_cases same : key' = key
    · subst same
      simp [Finmap.lookup_erase]
    · rw [Finmap.lookup_erase_ne same, rep.entries]
      simp [same]
  · rw [Finmap.keys_erase, Finset.card_erase_of_mem (Finmap.mem_keys.mpr present), ← rep.filled]

/-! ## Histories -/

/-- Operations on a table. -/
inductive Op where
  /-- `hsearch_r(FIND)` -/
  | find (key : CString)
  /-- `hsearch_r(ENTER)` -/
  | enter (key data : CString)
  /-- `hdelete_r` -/
  | delete (key : CString)
  deriving DecidableEq, Repr

/-- What an operation returns: the data of the entry found or entered, or whether a key was
deleted. -/
inductive Output where
  /-- From `hsearch_r`. -/
  | entry (result : Except Errno CString)
  /-- From `hdelete_r`. -/
  | deleted (result : Except Errno Unit)

/-- One operation on a table. -/
def step (htab : HsearchData) : Op → Option (Output × HsearchData)
  | .find key => (hsearchFind htab key).map fun result => (.entry (result.map Prod.snd), htab)
  | .enter key data => (hsearchEnter htab key data).map fun after => (.entry after.1, after.2)
  | .delete key => (hdeleteR htab key).map fun after => (.deleted after.1, after.2)

/-- The same operation on a finite map of limited capacity. -/
def mapStep (capacity : Nat) (m : EnvMap) : Op → Output × EnvMap
  | .find key =>
    (.entry (match m.lookup key with | some data => .ok data | none => .error .esrch), m)
  | .enter key data =>
    if m.lookup key = none ∧ m.keys.card = capacity then (.entry (.error .enomem), m)
    else (.entry (.ok data), m.insert key data)
  | .delete key =>
    match m.lookup key with
    | some _ => (.deleted (.ok ()), m.erase key)
    | none => (.deleted (.error .esrch), m)

/-- A history on a table: all outputs, or `none` if an operation does not end. -/
def run (htab : HsearchData) : List Op → Option (List Output)
  | [] => some []
  | op :: ops =>
    match step htab op with
    | none => none
    | some (output, after) => (run after ops).map (output :: ·)

/-- The same history on a finite map. -/
def mapRun (capacity : Nat) (m : EnvMap) : List Op → List Output
  | [] => []
  | op :: ops => (mapStep capacity m op).1 :: mapRun capacity (mapStep capacity m op).2 ops

/-- Entering a new key, into a table that is not full, does not take the branch that comes back to
the first bucket: that bucket is deleted, or some bucket was never used. -/
def Safe (htab : HsearchData) : Op → Prop
  | .enter key _ =>
    (∃ data, Live htab key data) ∨ htab.filled = htab.size ∨
      htab.table (firstHash htab.size key) = .deleted ∨
      ∃ i, 1 ≤ i ∧ i ≤ htab.size ∧ htab.table i = .empty
  | _ => True

/-- Every step of a history is safe in the table it is taken in. -/
def SafeRun (htab : HsearchData) : List Op → Prop
  | [] => True
  | op :: ops => Safe htab op ∧ ∀ output after, step htab op = some (output, after) →
      SafeRun after ops

section Step

variable {htab : HsearchData} {m : EnvMap} (rep : Represents htab m)
include rep

theorem Represents.find (key : CString) :
    (∀ data, m.lookup key = some data → ∃ i used, htab.table i = .live used key data ∧
      hsearchFind htab key = some (.ok (i, data))) ∧
    (m.lookup key = none → hsearchFind htab key = some (.error .esrch)) := by
  constructor
  · intro data present
    obtain ⟨i, used, live⟩ := (rep.entries key data).mp present
    refine ⟨i, used, live, ?_⟩
    simp only [hsearchFind, rep.locate_found live, live]
  · intro absent
    obtain ⟨i, located, -⟩ := rep.locate_missing (rep.missing absent)
    simp only [hsearchFind, located]

theorem Represents.delete (key : CString) :
    ∃ after, Env.step htab (.delete key) = some ((mapStep htab.size m (.delete key)).1, after) ∧
      after.size = htab.size ∧ Represents after (mapStep htab.size m (.delete key)).2 := by
  obtain ⟨found, missing⟩ := rep.find key
  cases present : m.lookup key with
  | some data =>
    obtain ⟨i, used, live, search⟩ := found data present
    refine ⟨{ htab.setBucket i .deleted with filled := htab.filled - 1 }, ?_, rfl, ?_⟩
    · simp [Env.step, hdeleteR, search, mapStep, present]
    · simp only [mapStep, present]
      exact rep.setDeleted live
  | none =>
    refine ⟨htab, ?_, rfl, ?_⟩
    · simp [Env.step, hdeleteR, missing present, mapStep, present]
    · simp only [mapStep, present]
      exact rep

theorem Represents.newBucket {key data : CString} (absent : m.lookup key = none)
    (room : htab.filled ≠ htab.size) (safe : Safe htab (.enter key data)) :
    ∃ stop j, locate htab key = some (.stopped stop) ∧ j < htab.size ∧
      probePath htab.size key j =
        (if htab.table (firstHash htab.size key) = .deleted then firstHash htab.size key else stop) ∧
      (∀ j' < j, htab.table (probePath htab.size key j') ≠ .empty) ∧
      ∀ used other old, htab.table (probePath htab.size key j) ≠ .live used other old := by
  obtain ⟨stop, located, ends⟩ := rep.locate_missing (rep.missing absent)
  by_cases deleted : htab.table (firstHash htab.size key) = .deleted
  · have bounds := firstHash_bounds rep.size key
    have first : probePath htab.size key 0 = firstHash htab.size key := rfl
    refine ⟨stop, 0, located, by omega, by rw [if_pos deleted, first],
      fun j' before => absurd before (Nat.not_lt_zero j'), fun used other old => ?_⟩
    rw [first, deleted]
    simp
  · have unused : ∃ i, 1 ≤ i ∧ i ≤ htab.size ∧ htab.table i = .empty := by
      rcases safe with ⟨old, live⟩ | full | tombstone | unused
      · exact absurd live (rep.missing absent old)
      · exact absurd full room
      · exact absurd tombstone deleted
      · exact unused
    rcases ends with ⟨empty, j, within, here, earlier⟩ | ⟨-, nowhere⟩
    · refine ⟨stop, j, located, within, by rw [if_neg deleted, here], earlier,
        fun used other old => ?_⟩
      rw [here, empty]
      simp
    · obtain ⟨i, low, high, empty⟩ := unused
      exact absurd empty (nowhere i low high)

/-- `hsearch_r(ENTER)`, taken safely, enters the key in the map. -/
theorem Represents.enter {key data : CString} (safe : Safe htab (.enter key data)) :
    ∃ after, Env.step htab (.enter key data) =
        some ((mapStep htab.size m (.enter key data)).1, after) ∧
      after.size = htab.size ∧ Represents after (mapStep htab.size m (.enter key data)).2 := by
  cases present : m.lookup key with
  | some old =>
    obtain ⟨i, used, live⟩ := (rep.entries key old).mp present
    obtain ⟨-, j, within, here, earlier⟩ := rep.reached live
    have member : key ∈ m.keys := Finmap.mem_keys.mpr (Finmap.mem_of_lookup_eq_some present)
    refine ⟨htab.setBucket i (.live (firstHash htab.size key) key data), ?_, rfl, ?_⟩
    · simp [Env.step, hsearchEnter, rep.locate_found live, mapStep, present]
    · simp only [mapStep, present, reduceCtorEq, false_and, ↓reduceIte]
      refine rep.setLive data within here earlier ?_ (fun live' => rep.unique live' live) ?_
      · intro used' other old' live'
        cases live.symm.trans live'
        rfl
      · rw [keys_insert, Finset.insert_eq_of_mem member]
        exact rep.filled
  | none =>
    by_cases full : htab.filled = htab.size
    · obtain ⟨stop, located, -⟩ := rep.locate_missing (rep.missing present)
      have atCapacity : m.keys.card = htab.size := rep.filled.symm.trans full
      refine ⟨htab, ?_, rfl, ?_⟩
      · simp [Env.step, hsearchEnter, located, full, mapStep, present, atCapacity]
      · simp only [mapStep, present, atCapacity, and_self, ↓reduceIte]
        exact rep
    · have belowCapacity : m.keys.card ≠ htab.size := fun same => full (rep.filled.trans same)
      obtain ⟨stop, j, located, within, here, earlier, notLive⟩ := rep.newBucket present full safe
      have notMember : key ∉ m.keys := by
        rw [Finmap.mem_keys, ← Finmap.lookup_eq_none]
        exact present
      refine ⟨{ htab.setBucket (probePath htab.size key j)
          (.live (firstHash htab.size key) key data) with filled := htab.filled + 1 }, ?_, rfl, ?_⟩
      · simp [Env.step, hsearchEnter, located, full, mapStep, present, belowCapacity, here]
      · simp only [mapStep, present, belowCapacity, and_false, ↓reduceIte]
        refine rep.setLive data within rfl earlier (fun live => absurd live (notLive _ _ _)) ?_ ?_
        · intro i used old live
          exact absurd ⟨i, used, live⟩ (rep.missing present old)
        · rw [keys_insert, Finset.card_insert_of_notMem notMember, ← rep.filled]

theorem Represents.step {op : Op} (safe : Safe htab op) :
    ∃ after, Env.step htab op = some ((mapStep htab.size m op).1, after) ∧
      after.size = htab.size ∧ Represents after (mapStep htab.size m op).2 := by
  cases op with
  | find key =>
    obtain ⟨found, missing⟩ := rep.find key
    refine ⟨htab, ?_, rfl, rep⟩
    cases present : m.lookup key with
    | some data =>
      obtain ⟨i, used, live, search⟩ := found data present
      simp [Env.step, search, mapStep, present, Except.map]
    | none => simp [Env.step, missing present, mapStep, present, Except.map]
  | enter key data => exact rep.enter safe
  | delete key => exact rep.delete key

theorem Represents.run {ops : List Op} (safe : SafeRun htab ops) :
    Env.run htab ops = some (mapRun htab.size m ops) := by
  induction ops generalizing htab m with
  | nil => rfl
  | cons op ops ih =>
    obtain ⟨here, ahead⟩ := safe
    obtain ⟨after, stepped, size, rep'⟩ := rep.step here
    have rest := ih rep' (ahead _ _ stepped)
    rw [size] at rest
    simp only [Env.run, stepped, rest, mapRun, Option.map_some]

end Step

theorem hcreateR_represents {nel : Nat} {htab : HsearchData} (created : hcreateR nel = some htab) :
    Represents htab ∅ := by
  refine ⟨hcreateR_intact created, ?_, ?_⟩
  all_goals
    simp only [hcreateR] at created
    split at created
  all_goals cases created
  · simp [Live]
  · simp

/-- In every history whose steps are all safe, a table made by `hcreate_r` answers like a finite
map of capacity `size`. -/
theorem hsearch_behaves_as_map (nel : Nat) (htab : HsearchData) (ops : List Op)
    (created : hcreateR nel = some htab) (safe : SafeRun htab ops) :
    run htab ops = some (mapRun htab.size ∅ ops) :=
  (hcreateR_represents created).run safe

/-! ## All histories -/

/-- The table after a history, if all its operations end. -/
def runTable (htab : HsearchData) : List Op → Option HsearchData
  | [] => some htab
  | op :: ops => (step htab op).bind fun after => runTable after.2 ops

theorem Represents.safe_of_one {htab : HsearchData} {m : EnvMap} (rep : Represents htab m)
    (one : htab.size = 1) (op : Op) : Safe htab op := by
  cases op with
  | find key => trivial
  | delete key => trivial
  | enter key data =>
    have first : firstHash htab.size key = 1 := by
      have bounds := firstHash_bounds rep.size key
      omega
    cases bucket : htab.table 1 with
    | empty => exact .inr (.inr (.inr ⟨1, by omega, by omega, bucket⟩))
    | deleted => exact .inr (.inr (.inl (first ▸ bucket)))
    | live used held old =>
      have single : m.keys = {held} := by
        ext key'
        rw [Finset.mem_singleton, Finmap.mem_keys, Finmap.mem_iff]
        constructor
        · rintro ⟨data', present⟩
          obtain ⟨i, used', live⟩ := (rep.entries key' data').mp present
          obtain ⟨-, j, within, here, -⟩ := rep.reached live
          have bounds := probePath_bounds rep.size key' within
          have same : i = 1 := by omega
          subst same
          cases bucket.symm.trans live
          rfl
        · rintro rfl
          exact ⟨old, (rep.entries _ _).mpr ⟨1, used, bucket⟩⟩
      refine .inr (.inl ?_)
      rw [rep.filled, single, one]
      rfl

/-- Every operation on an intact table of more than one bucket ends and leaves it intact. -/
theorem Intact.step {htab : HsearchData} (intact : Intact htab) (large : htab.size ≠ 1) (op : Op) :
    ∃ output after, Env.step htab op = some (output, after) ∧ after.size = htab.size ∧
      Intact after := by
  have search (key : CString) : (∃ i used data, htab.table i = .live used key data ∧
      hsearchFind htab key = some (.ok (i, data))) ∨
      hsearchFind htab key = some (.error .esrch) := by
    by_cases present : ∃ data, Live htab key data
    · obtain ⟨data, i, used, live⟩ := present
      refine .inl ⟨i, used, data, live, ?_⟩
      simp only [hsearchFind, intact.locate_found live, live]
    · obtain ⟨i, located, -⟩ := intact.locate_missing fun data live => present ⟨data, live⟩
      exact .inr (by simp only [hsearchFind, located])
  cases op with
  | find key =>
    rcases search key with ⟨i, used, data, live, found⟩ | missing
    · have stepped : Env.step htab (.find key) = some (.entry (.ok data), htab) := by
        simp [Env.step, found, Except.map]
      exact ⟨_, _, stepped, rfl, intact⟩
    · have stepped : Env.step htab (.find key) = some (.entry (.error .esrch), htab) := by
        simp [Env.step, missing, Except.map]
      exact ⟨_, _, stepped, rfl, intact⟩
  | delete key =>
    rcases search key with ⟨i, used, data, live, found⟩ | missing
    · have stepped : Env.step htab (.delete key) = some (.deleted (.ok ()),
          { htab.setBucket i .deleted with filled := htab.filled - 1 }) := by
        simp [Env.step, hdeleteR, found]
      exact ⟨_, _, stepped, rfl, intact.setDeleted live _⟩
    · have stepped : Env.step htab (.delete key) = some (.deleted (.error .esrch), htab) := by
        simp [Env.step, hdeleteR, missing]
      exact ⟨_, _, stepped, rfl, intact⟩
  | enter key data =>
    by_cases present : ∃ old, Live htab key old
    · obtain ⟨old, i, used, live⟩ := present
      obtain ⟨-, j, within, here, earlier⟩ := intact.reached live
      have stepped : Env.step htab (.enter key data) = some (.entry (.ok data),
          htab.setBucket i (.live (firstHash htab.size key) key data)) := by
        simp [Env.step, hsearchEnter, intact.locate_found live]
      exact ⟨_, _, stepped, rfl, intact.setLive data within here earlier
        (fun live' => intact.unique live' live) htab.filled⟩
    · have nowhere {i used old} (live : htab.table i = .live used key old) : False :=
        present ⟨old, i, used, live⟩
      obtain ⟨stop, located, ends⟩ := intact.locate_missing fun old live => present ⟨old, live⟩
      by_cases full : htab.filled = htab.size
      · have stepped : Env.step htab (.enter key data) = some (.entry (.error .enomem), htab) := by
          simp [Env.step, hsearchEnter, located, full]
        exact ⟨_, _, stepped, rfl, intact⟩
      · let slot := if htab.table (firstHash htab.size key) = .deleted then
          firstHash htab.size key else stop
        have stepped : Env.step htab (.enter key data) = some (.entry (.ok data),
            { htab.setBucket slot (.live (firstHash htab.size key) key data) with
              filled := htab.filled + 1 }) := by
          simp [Env.step, hsearchEnter, located, full, slot]
        have onPath : ∃ j < htab.size, probePath htab.size key j = slot ∧
            ∀ j' < j, htab.table (probePath htab.size key j') ≠ .empty := by
          have bounds := firstHash_bounds intact.size key
          have atFirst : probePath htab.size key 0 = firstHash htab.size key := rfl
          have none : ∀ j' < 0, htab.table (probePath htab.size key j') ≠ .empty :=
            fun j' before => absurd before (Nat.not_lt_zero j')
          by_cases deleted : htab.table (firstHash htab.size key) = .deleted
          · exact ⟨0, by omega, by simp only [slot, deleted, ↓reduceIte, atFirst], none⟩
          · rcases ends with ⟨-, j, within, here, earlier⟩ | ⟨back, -⟩
            · exact ⟨j, within, by simp only [slot, deleted, ↓reduceIte, here], earlier⟩
            · exact ⟨0, by omega, by
                simp only [slot, deleted, ↓reduceIte, atFirst, back large], none⟩
        obtain ⟨j, within, here, earlier⟩ := onPath
        exact ⟨_, _, stepped, rfl,
          intact.setLive data within here earlier (fun live => (nowhere live).elim) _⟩

theorem runTable_intact {nel : Nat} {htab : HsearchData} (created : hcreateR nel = some htab)
    (ops : List Op) : ∃ after, runTable htab ops = some after ∧ Intact after := by
  by_cases one : htab.size = 1
  · have rep := hcreateR_represents created
    generalize (∅ : EnvMap) = m at rep
    clear created
    induction ops generalizing htab m with
    | nil => exact ⟨htab, rfl, rep.toIntact⟩
    | cons op ops ih =>
      obtain ⟨after, stepped, size, rep'⟩ := rep.step (rep.safe_of_one one op)
      obtain ⟨last, ran, intact⟩ := ih (size.trans one) _ rep'
      exact ⟨last, by simp only [runTable, stepped, Option.bind_some, ran], intact⟩
  · have intact := hcreateR_intact created
    clear created
    induction ops generalizing htab with
    | nil => exact ⟨htab, rfl, intact⟩
    | cons op ops ih =>
      obtain ⟨output, after, stepped, size, intact'⟩ := intact.step one op
      obtain ⟨last, ran, intactLast⟩ := ih (size.trans_ne one) intact'
      exact ⟨last, by simp only [runTable, stepped, Option.bind_some, ran], intactLast⟩

/-- The smallest table with more than one bucket. -/
def fiveBuckets : HsearchData := ⟨5, 0, fun _ => .empty⟩

theorem hcreateR_five : hcreateR 5 = some fiveBuckets := by
  have five : isprime 5 = true := by
    rw [isprime, isprimeLoop]
    simp
  have size : tableSize 5 = 5 := by
    have first : Nat.find (exists_isprime 5) = 0 := (Nat.find_eq_zero _).mpr five
    rw [tableSize, first]
  rw [hcreateR, size]
  rfl

/-- Entering a key, finding it, deleting it and looking for it again. -/
theorem hsearch_behaves_as_map_roundTrip :
    run fiveBuckets [.enter [97] [1], .find [97], .delete [97], .find [97]] =
      some (mapRun 5 ∅ [.enter [97] [1], .find [97], .delete [97], .find [97]]) := by
  refine hsearch_behaves_as_map 5 fiveBuckets _ hcreateR_five ⟨?_, fun _ _ _ => ?_⟩
  · exact .inr (.inr (.inr ⟨1, by decide, by decide, rfl⟩))
  · exact ⟨trivial, fun _ _ _ => ⟨trivial, fun _ _ _ => ⟨trivial, fun _ _ _ => trivial⟩⟩⟩

/-- Five keys fill the table; one is deleted and another one entered. -/
def crowding : List Op :=
  [.enter [97] [1], .enter [98] [2], .enter [99] [3], .enter [100] [4], .enter [101] [5],
    .delete [101], .enter [102] [6], .find [97]]

/-- Entering the last key has overwritten the first one. -/
theorem hsearch_loses_key :
    ¬∀ nel htab ops, hcreateR nel = some htab → run htab ops = some (mapRun htab.size ∅ ops) := by
  intro behaves
  have same := behaves 5 fiveBuckets crowding hcreateR_five
  have table : (run fiveBuckets crowding).bind List.getLast? = some (.entry (.error .esrch)) := rfl
  have map : (some (mapRun 5 ∅ crowding)).bind List.getLast? = some (.entry (.ok [1])) := rfl
  have last := congrArg (fun outputs => outputs.bind List.getLast?) same
  rw [table, show fiveBuckets.size = 5 from rfl, map] at last
  cases last

end HrppBoot.Env
