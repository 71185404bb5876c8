import HrppBoot.Env.HashTable

/-!
# Tables with intact probe paths

`Intact` is what every table keeps through every operation, whatever is entered and deleted: each
live entry lies on the probe path of its key, behind buckets that have all been used, and no key
is live twice. Searches in such a table end, and find a key exactly where it is live.
-/

namespace HrppBoot.Env

/-- The probe path of a key. -/
def probePath (size : Nat) (key : CString) (j : Nat) : Nat :=
  Probe.path size (secondHash size (firstHash size key)) (firstHash size key) j

/-- Sizes that `hcreate_r` gives a table. -/
def GoodSize (size : Nat) : Prop := size = 1 ∨ size.Prime ∧ 5 ≤ size

/-- The table has this entry. -/
def Live (htab : HsearchData) (key data : CString) : Prop :=
  ∃ i used, htab.table i = .live used key data

/-- Every live entry can be found. -/
structure Intact (htab : HsearchData) : Prop where
  /-- The size is one that `hcreate_r` chooses. -/
  size : GoodSize htab.size
  zero : htab.table 0 = .empty
  /-- An entry carries the hash of its key and lies on its probe path, behind used buckets. -/
  reached : ∀ {i used key data}, htab.table i = .live used key data →
    used = firstHash htab.size key ∧
      ∃ j < htab.size, probePath htab.size key j = i ∧
        ∀ j' < j, htab.table (probePath htab.size key j') ≠ .empty
  unique : ∀ {i i' used used' key data data'}, htab.table i = .live used key data →
    htab.table i' = .live used' key data' → i = i'

/-! ## Where a search ends -/

variable {size i : Nat} {data : CString}

theorem firstHash_bounds (good : GoodSize size) (key : CString) :
    1 ≤ firstHash size key ∧ firstHash size key ≤ size := by
  have positive : 0 < size := by
    rcases good with one | ⟨-, five⟩ <;> omega
  have small := Nat.mod_lt (hashKey key).toNat positive
  simp only [firstHash]
  split <;> omega

theorem secondHash_bounds (five : 5 ≤ size) (hval : Nat) :
    0 < secondHash size hval ∧ secondHash size hval < size := by
  have small := Nat.mod_lt hval (show 0 < size - 2 by omega)
  unfold secondHash
  omega

/-- What the loop stops at. -/
def StopsAt (htab : HsearchData) (key : CString) (j : Nat) : Prop :=
  probePath htab.size key j = firstHash htab.size key ∨
    (htab.table (probePath htab.size key j)).holdsKey (firstHash htab.size key) key = true ∨
    htab.table (probePath htab.size key j) = .empty

instance (htab : HsearchData) (key : CString) (j : Nat) : Decidable (StopsAt htab key j) :=
  inferInstanceAs (Decidable (_ ∨ _ ∨ _))

/-- How the loop ends at a position. -/
def endAt (htab : HsearchData) (key : CString) (j : Nat) : ProbeEnd :=
  if probePath htab.size key j = firstHash htab.size key then .stopped (probePath htab.size key j)
  else if (htab.table (probePath htab.size key j)).holdsKey (firstHash htab.size key) key then
    .found (probePath htab.size key j)
  else .stopped (probePath htab.size key j)

theorem probeLoop_eq (htab : HsearchData) (key : CString) (fuel last n : Nat) (later : last < n)
    (enough : n ≤ last + fuel) (stops : StopsAt htab key n)
    (passes : ∀ j, last < j → j < n → ¬StopsAt htab key j) :
    probeLoop htab key (firstHash htab.size key)
      (secondHash htab.size (firstHash htab.size key)) fuel (probePath htab.size key last) =
      some (endAt htab key n) := by
  induction fuel generalizing last with
  | zero => omega
  | succ fuel ih =>
    have step : Probe.next htab.size (secondHash htab.size (firstHash htab.size key))
        (probePath htab.size key last) = probePath htab.size key (last + 1) :=
      (Probe.path_succ last).symm
    rw [probeLoop]
    simp only [step]
    by_cases here : last + 1 = n
    · rw [here, endAt]
      by_cases back : probePath htab.size key n = firstHash htab.size key
      · simp only [back, ↓reduceIte]
      · simp only [back, ↓reduceIte]
        split
        · rfl
        · rename_i other
          have empty := (stops.resolve_left back).resolve_left other
          simp only [empty, ↓reduceIte]
    · have goesOn := passes (last + 1) (by omega) (by omega)
      simp only [StopsAt, not_or] at goesOn
      simp only [goesOn, ↓reduceIte]
      exact ih (last + 1) (by omega) (by omega) fun j after before => passes j (by omega) before

theorem exists_stopsAt {htab : HsearchData} (good : GoodSize htab.size)
    (zero : htab.table 0 = .empty) (key : CString) :
    ∃ n, 0 < n ∧ n ≤ htab.size ∧ StopsAt htab key n := by
  have bounds := firstHash_bounds good key
  rcases good with one | ⟨-, five⟩
  · have first : firstHash htab.size key = 1 := by omega
    have second : probePath htab.size key 1 = 0 := by
      rw [probePath, Probe.path_succ, Probe.path_zero, first, one]
      rfl
    refine ⟨1, by omega, by omega, .inr (.inr ?_)⟩
    rw [second]
    exact zero
  · obtain ⟨positive, small⟩ := secondHash_bounds five (firstHash htab.size key)
    exact ⟨htab.size, by omega, Nat.le_refl _, .inl (Probe.path_size positive small bounds)⟩

theorem locate_eq {htab : HsearchData} (good : GoodSize htab.size) (zero : htab.table 0 = .empty)
    {key : CString} (used : htab.table (firstHash htab.size key) ≠ .empty)
    (other : (htab.table (firstHash htab.size key)).holdsKey (firstHash htab.size key) key = false)
    :
    ∃ n, 0 < n ∧ n ≤ htab.size ∧ StopsAt htab key n ∧
      (∀ j, 0 < j → j < n → ¬StopsAt htab key j) ∧ locate htab key = some (endAt htab key n) := by
  have exists_stop := exists_stopsAt good zero key
  let n := Nat.find exists_stop
  obtain ⟨later, within, stops⟩ := Nat.find_spec exists_stop
  have passes : ∀ j, 0 < j → j < n → ¬StopsAt htab key j := by
    intro j after before here
    exact Nat.find_min exists_stop before ⟨after, by omega, here⟩
  refine ⟨n, later, within, stops, passes, ?_⟩
  have loop := probeLoop_eq htab key htab.size 0 n later (by omega) stops passes
  simp only [locate, used, other, ↓reduceIte, Bool.false_eq_true]
  exact loop

section Search

variable {htab : HsearchData} (intact : Intact htab) {key : CString}
include intact

theorem Intact.holdsKey_of_live {i used : Nat} {data : CString}
    (live : htab.table i = .live used key data) :
    (htab.table i).holdsKey (firstHash htab.size key) key = true := by
  rw [Bucket.holdsKey_iff]
  obtain ⟨hash, -⟩ := intact.reached live
  exact ⟨data, hash ▸ live⟩

/-- A live key is found at its entry. -/
theorem Intact.locate_found {i used : Nat} {data : CString}
    (live : htab.table i = .live used key data) : locate htab key = some (.found i) := by
  obtain ⟨-, j, within, here, earlier⟩ := intact.reached live
  have holds := intact.holdsKey_of_live live
  have only {i' : Nat} (also : (htab.table i').holdsKey (firstHash htab.size key) key = true) :
      i' = i := by
    obtain ⟨data', live'⟩ := Bucket.holdsKey_iff.mp also
    exact intact.unique live' live
  by_cases atFirst : (htab.table (firstHash htab.size key)).holdsKey
      (firstHash htab.size key) key = true
  · obtain ⟨data', live'⟩ := Bucket.holdsKey_iff.mp atFirst
    have used' : htab.table (firstHash htab.size key) ≠ .empty := by simp [live']
    simp only [locate, used', atFirst, ↓reduceIte]
    rw [only atFirst]
  · have notFirst : (htab.table (firstHash htab.size key)).holdsKey
        (firstHash htab.size key) key = false := by simpa using atFirst
    have positive : 0 < j := by
      apply Nat.pos_of_ne_zero
      rintro rfl
      have first : firstHash htab.size key = i := here
      rw [← first] at holds
      exact atFirst holds
    have used' : htab.table (firstHash htab.size key) ≠ .empty := earlier 0 positive
    obtain ⟨n, later, bound, stops, passes, located⟩ :=
      locate_eq intact.size intact.zero used' notFirst
    have five : htab.size.Prime ∧ 5 ≤ htab.size := intact.size.resolve_left (by omega)
    have bounds := firstHash_bounds intact.size key
    obtain ⟨stepPositive, stepSmall⟩ := secondHash_bounds five.2 (firstHash htab.size key)
    have notBack (k : Nat) (after : 0 < k) (before : k < htab.size) :
        probePath htab.size key k ≠ firstHash htab.size key :=
      Probe.path_ne_start stepPositive stepSmall five.1 after before
    have stopsHere : StopsAt htab key j := .inr (.inl (here ▸ holds))
    have notLater : n ≤ j := by
      by_contra beyond
      exact passes j positive (by omega) stopsHere
    have found : (htab.table (probePath htab.size key n)).holdsKey
        (firstHash htab.size key) key = true := by
      rcases stops.resolve_left (notBack n later (by omega)) with found | empty
      · exact found
      · rcases Nat.lt_or_eq_of_le notLater with before | same
        · exact absurd empty (earlier n before)
        · rw [same, here]
          exact holds
    rw [located, endAt, if_neg (notBack n later (by omega)), if_pos found, only found]

/-- A key that is not live is looked for up to a bucket never used, behind used ones, or all
around a table without such a bucket. -/
theorem Intact.locate_missing (missing : ∀ data, ¬Live htab key data) :
    ∃ i, locate htab key = some (.stopped i) ∧
      ((htab.table i = .empty ∧ ∃ j < htab.size, probePath htab.size key j = i ∧
          ∀ j' < j, htab.table (probePath htab.size key j') ≠ .empty) ∨
        ((htab.size ≠ 1 → i = firstHash htab.size key) ∧
          ∀ i', 1 ≤ i' → i' ≤ htab.size → htab.table i' ≠ .empty)) := by
  have nowhere (i : Nat) :
      (htab.table i).holdsKey (firstHash htab.size key) key = false := by
    by_contra holds
    obtain ⟨data, live⟩ := Bucket.holdsKey_iff.mp (by simpa using holds)
    exact missing data ⟨i, _, live⟩
  by_cases empty : htab.table (firstHash htab.size key) = .empty
  · refine ⟨firstHash htab.size key, by simp only [locate, empty, ↓reduceIte], .inl ⟨empty, ?_⟩⟩
    have bounds := firstHash_bounds intact.size key
    exact ⟨0, by omega, rfl, fun j' before => absurd before (Nat.not_lt_zero j')⟩
  · obtain ⟨n, later, bound, stops, passes, located⟩ :=
      locate_eq intact.size intact.zero empty (nowhere _)
    have ends : endAt htab key n = .stopped (probePath htab.size key n) := by
      simp [endAt, nowhere]
    refine ⟨probePath htab.size key n, by rw [located, ends], ?_⟩
    have earlier (j' : Nat) (before : j' < n) :
        htab.table (probePath htab.size key j') ≠ .empty := by
      rcases Nat.eq_zero_or_pos j' with rfl | after
      · exact empty
      · have goesOn := passes j' after before
        simp only [StopsAt, not_or] at goesOn
        exact goesOn.2.2
    have bounds := firstHash_bounds intact.size key
    rcases intact.size with one | ⟨prime, five⟩
    · refine .inr ⟨fun large => absurd one large, fun i' low high => ?_⟩
      have same : i' = firstHash htab.size key := by omega
      rwa [same]
    · obtain ⟨positive, small⟩ := secondHash_bounds five (firstHash htab.size key)
      by_cases back : probePath htab.size key n = firstHash htab.size key
      · have around : htab.size ≤ n := by
          by_contra before
          exact Probe.path_ne_start positive small prime later (by omega) back
        refine .inr ⟨fun _ => back, fun i' low high => ?_⟩
        obtain ⟨j', before, visited⟩ := Probe.path_surjective positive small bounds prime ⟨low, high⟩
        rw [← visited]
        exact earlier j' (by omega)
      · have unused : htab.table (probePath htab.size key n) = .empty := by
          rcases stops.resolve_left back with holds | unused
          · rw [nowhere] at holds
            cases holds
          · exact unused
        have before : n < htab.size := by
          apply Nat.lt_of_le_of_ne bound
          intro same
          apply back
          rw [same]
          exact Probe.path_size positive small bounds
        exact .inl ⟨unused, n, before, rfl, earlier⟩

end Search

/-! ## Writing buckets -/

theorem probePath_bounds (good : GoodSize size) (key : CString) {j : Nat} (within : j < size)
    : 1 ≤ probePath size key j ∧ probePath size key j ≤ size := by
  have bounds := firstHash_bounds good key
  rcases good with one | ⟨-, five⟩
  · have first : j = 0 := by omega
    subst first
    exact bounds
  · obtain ⟨positive, small⟩ := secondHash_bounds five (firstHash size key)
    exact Probe.path_bounds positive small bounds j

theorem setBucket_used {htab : HsearchData} {i' : Nat} {bucket : Bucket}
    (nonempty : bucket ≠ .empty) (used : htab.table i' ≠ .empty) :
    (htab.setBucket i bucket).table i' ≠ .empty := by
  by_cases same : i' = i
  · subst same
    rwa [HsearchData.setBucket_same]
  · rwa [HsearchData.setBucket_other _ _ same]

/-- A table in which a live entry was written at a bucket of its probe path is intact, if its key
was live nowhere else. -/
theorem Intact.setLive {htab : HsearchData} (intact : Intact htab) {j : Nat} {key : CString}
    (data : CString) (within : j < htab.size) (here : probePath htab.size key j = i)
    (earlier : ∀ j' < j, htab.table (probePath htab.size key j') ≠ .empty)
    (only : ∀ {i' used old}, htab.table i' = .live used key old → i' = i) (filled : Nat) :
    Intact { htab.setBucket i (.live (firstHash htab.size key) key data) with filled := filled } := by
  have written : (htab.setBucket i (.live (firstHash htab.size key) key data)).table i =
      .live (firstHash htab.size key) key data := HsearchData.setBucket_same ..
  have kept {i' : Nat} (other : i' ≠ i) :
      (htab.setBucket i (.live (firstHash htab.size key) key data)).table i' = htab.table i' :=
    HsearchData.setBucket_other _ _ other
  have stillUsed {i' : Nat} (used : htab.table i' ≠ .empty) :
      (htab.setBucket i (.live (firstHash htab.size key) key data)).table i' ≠ .empty :=
    setBucket_used (by simp) used
  have bucket := probePath_bounds intact.size key within
  refine ⟨intact.size, ?_, ?_, ?_⟩
  · have other : 0 ≠ i := by omega
    exact (kept other).trans intact.zero
  · intro i' used key' data' live
    by_cases same : i' = i
    · subst same
      cases written.symm.trans live
      exact ⟨rfl, j, within, here, fun j' before => stillUsed (earlier j' before)⟩
    · obtain ⟨hash, j', within', here', earlier'⟩ := intact.reached ((kept same).symm.trans live)
      exact ⟨hash, j', within', here', fun j'' before => stillUsed (earlier' j'' before)⟩
  · intro i₁ i₂ used₁ used₂ key' data₁ data₂ live₁ live₂
    by_cases same₁ : i₁ = i <;> by_cases same₂ : i₂ = i
    · rw [same₁, same₂]
    · subst same₁
      cases written.symm.trans live₁
      exact absurd (only ((kept same₂).symm.trans live₂)) same₂
    · subst same₂
      cases written.symm.trans live₂
      exact absurd (only ((kept same₁).symm.trans live₁)) same₁
    · exact intact.unique ((kept same₁).symm.trans live₁) ((kept same₂).symm.trans live₂)

/-- The entries of such a table, if the bucket held no other key. -/
theorem live_setLive {htab : HsearchData} {key : CString} {hval filled : Nat}
    (own : ∀ {used other old}, htab.table i = .live used other old → other = key)
    (only : ∀ {i' used old}, htab.table i' = .live used key old → i' = i) (key' data' : CString) :
    Live { htab.setBucket i (.live hval key data) with filled := filled } key' data' ↔
      if key' = key then data' = data else Live htab key' data' := by
  have written : (htab.setBucket i (.live hval key data)).table i = .live hval key data :=
    HsearchData.setBucket_same ..
  have kept {i' : Nat} (other : i' ≠ i) :
      (htab.setBucket i (.live hval key data)).table i' = htab.table i' :=
    HsearchData.setBucket_other _ _ other
  by_cases same : key' = key
  · subst same
    rw [if_pos rfl]
    constructor
    · rintro ⟨i', used, live⟩
      by_cases at_i : i' = i
      · subst at_i
        cases written.symm.trans live
        rfl
      · exact absurd (only ((kept at_i).symm.trans live)) at_i
    · rintro rfl
      exact ⟨i, hval, written⟩
  · rw [if_neg same]
    constructor
    · rintro ⟨i', used, live⟩
      by_cases at_i : i' = i
      · subst at_i
        cases written.symm.trans live
        exact absurd rfl same
      · exact ⟨i', used, (kept at_i).symm.trans live⟩
    · rintro ⟨i', used, live⟩
      have other : i' ≠ i := by
        rintro rfl
        exact same (own live)
      exact ⟨i', used, (kept other).trans live⟩

theorem Intact.live_setDeleted {htab : HsearchData} (intact : Intact htab) {used : Nat}
    {key : CString} (live : htab.table i = .live used key data) (filled : Nat)
    (key' data' : CString) :
    Live { htab.setBucket i .deleted with filled := filled } key' data' ↔
      key' ≠ key ∧ Live htab key' data' := by
  have written : (htab.setBucket i .deleted).table i = .deleted := HsearchData.setBucket_same ..
  have kept {i' : Nat} (other : i' ≠ i) :
      (htab.setBucket i .deleted).table i' = htab.table i' :=
    HsearchData.setBucket_other _ _ other
  constructor
  · rintro ⟨i', used', after⟩
    have other : i' ≠ i := by
      rintro rfl
      cases written.symm.trans after
    have before := (kept other).symm.trans after
    refine ⟨?_, i', used', before⟩
    rintro rfl
    exact other (intact.unique before live)
  · rintro ⟨different, i', used', before⟩
    have other : i' ≠ i := by
      rintro rfl
      cases live.symm.trans before
      exact different rfl
    exact ⟨i', used', (kept other).trans before⟩

theorem Intact.setDeleted {htab : HsearchData} (intact : Intact htab) {used : Nat} {key : CString}
    (live : htab.table i = .live used key data) (filled : Nat) :
    Intact { htab.setBucket i .deleted with filled := filled } := by
  have written : (htab.setBucket i .deleted).table i = .deleted := HsearchData.setBucket_same ..
  have kept {i' : Nat} (other : i' ≠ i) :
      (htab.setBucket i .deleted).table i' = htab.table i' :=
    HsearchData.setBucket_other _ _ other
  have before {i' used' : Nat} {key' data' : CString}
      (after : (htab.setBucket i .deleted).table i' = .live used' key' data') :
      htab.table i' = .live used' key' data' := by
    have other : i' ≠ i := by
      rintro rfl
      cases written.symm.trans after
    exact (kept other).symm.trans after
  refine ⟨intact.size, ?_, ?_, ?_⟩
  · have other : 0 ≠ i := by
      rintro rfl
      cases intact.zero.symm.trans live
    exact (kept other).trans intact.zero
  · intro i' used' key' data' after
    obtain ⟨hash, j, within, here, earlier⟩ := intact.reached (before after)
    exact ⟨hash, j, within, here, fun j' lower => setBucket_used (by simp) (earlier j' lower)⟩
  · intro i₁ i₂ used₁ used₂ key' data₁ data₂ after₁ after₂
    exact intact.unique (before after₁) (before after₂)

theorem hcreateR_intact {nel : Nat} {htab : HsearchData} (created : hcreateR nel = some htab) :
    Intact htab := by
  simp only [hcreateR] at created
  split at created
  · cases created
    refine ⟨tableSize_prime nel, rfl, ?_, ?_⟩
    · intro i used key data live
      cases live
    · intro i i' used used' key data data' live
      cases live
  · cases created

end HrppBoot.Env
