import HrppBoot.Env.Failing

/-!
# Listing the entries with a prefix

`hmatch_r` goes on from an index to the next entry whose key starts with a string, and stops before
the last bucket. Buckets are numbered from 1 to `size`, whatever calls were made on the table, so
that the listing is complete exactly if the last bucket is not one of those looked for.
-/

namespace HrppBoot.Env

/-- The bucket is live and its key starts with the string; `strncmp` has no result on a null
pointer. -/
def Slot.startsWith (slot : Slot) (text : CString) : Option Bool :=
  match slot with
  | .live _ key _ => key.map fun key => text.isPrefixOf key
  | .empty => some false
  | .deleted => some false

namespace PointerTable

/-- The loop of `hmatch_r` from an index on; `none` stands for a null pointer handed to
`strncmp`. -/
def hmatchLoop (htab : PointerTable) (text : CString) (idx : Nat) : Option Nat :=
  if idx < htab.size then
    match (htab.table idx).startsWith text with
    | none => none
    | some true => some idx
    | some false => hmatchLoop htab text (idx + 1)
  else some 0
termination_by htab.size - idx

/-- `hmatch_r`: the index of the next entry, or 0. -/
def hmatchR (htab : PointerTable) (text : CString) (lastIdx : Nat) : Option Nat :=
  htab.hmatchLoop text (lastIdx + 1)

/-- What the loop says of the buckets from an index on. -/
inductive Next (htab : PointerTable) (text : CString) (idx : Nat) : Option Nat → Prop where
  | null (i : Nat) (here : idx ≤ i ∧ i < htab.size)
    (null : (htab.table i).startsWith text = none) : Next htab text idx none
  | exhausted
    (others : ∀ i, idx ≤ i → i < htab.size → (htab.table i).startsWith text = some false) :
    Next htab text idx (some 0)
  | found (i : Nat) (here : idx ≤ i ∧ i < htab.size)
    (starts : (htab.table i).startsWith text = some true)
    (others : ∀ j, idx ≤ j → j < i → (htab.table j).startsWith text = some false) :
    Next htab text idx (some i)

theorem hmatchLoop_next (htab : PointerTable) (text : CString) (idx : Nat) :
    Next htab text idx (htab.hmatchLoop text idx) := by
  induction size : htab.size - idx generalizing idx with
  | zero =>
    rw [hmatchLoop, if_neg (by omega)]
    exact .exhausted fun i low high => by omega
  | succ left ih =>
    rw [hmatchLoop, if_pos (by omega)]
    cases here : (htab.table idx).startsWith text with
    | none => exact .null idx (by omega) here
    | some starts =>
      cases starts with
      | true => exact .found idx (by omega) here fun j low high => by omega
      | false =>
        have with_here {i : Nat} (bound : Nat) (later : ∀ j, idx + 1 ≤ j → j < bound →
            (htab.table j).startsWith text = some false) (low : idx ≤ i) (high : i < bound) :
            (htab.table i).startsWith text = some false := by
          rcases Nat.eq_or_lt_of_le low with rfl | above
          · exact here
          · exact later i above high
        have next := ih (idx + 1) (by omega)
        dsimp only
        generalize htab.hmatchLoop text (idx + 1) = result at next ⊢
        cases next with
        | null i within null => exact .null i (by omega) null
        | exhausted others => exact .exhausted fun i => with_here _ others
        | found i within starts others =>
          exact .found i (by omega) starts fun j => with_here _ others

/-- Calling `hmatch_r` with the index that it returned, until it returns 0. -/
def hmatchAll (htab : PointerTable) (text : CString) (lastIdx : Nat) : Option (List Nat) :=
  match step : htab.hmatchR text lastIdx with
  | none => none
  | some 0 => some []
  | some (idx + 1) => (hmatchAll htab text (idx + 1)).map ((idx + 1) :: ·)
termination_by htab.size - lastIdx
decreasing_by
  have next := htab.hmatchLoop_next text (lastIdx + 1)
  rw [hmatchR] at step
  rw [step] at next
  cases next with
  | found i here => omega

/-- The listing from an index on. -/
theorem hmatchAll_spec (htab : PointerTable) (text : CString) (lastIdx : Nat) :
    (htab.hmatchAll text lastIdx = none ∧
      ∃ i, lastIdx < i ∧ i < htab.size ∧ (htab.table i).startsWith text = none) ∨
    ∃ list, htab.hmatchAll text lastIdx = some list ∧ list.Nodup ∧
      (∀ i, i ∈ list ↔ lastIdx < i ∧ i < htab.size ∧ (htab.table i).startsWith text = some true) ∧
      ∀ i, lastIdx < i → i < htab.size → (htab.table i).startsWith text ≠ none := by
  induction lastIdx using hmatchAll.induct htab text with
  | case1 lastIdx step =>
    have next := htab.hmatchLoop_next text (lastIdx + 1)
    have result : htab.hmatchAll text lastIdx = none := by
      rw [hmatchAll]
      split <;> simp_all
    rw [hmatchR] at step
    rw [step] at next
    cases next with
    | null i here null => exact .inl ⟨result, i, by omega, here.2, null⟩
  | case2 lastIdx step =>
    have next := htab.hmatchLoop_next text (lastIdx + 1)
    have result : htab.hmatchAll text lastIdx = some [] := by
      rw [hmatchAll]
      split <;> simp_all
    rw [hmatchR] at step
    rw [step] at next
    have others : ∀ i, lastIdx < i → i < htab.size →
        (htab.table i).startsWith text = some false := by
      generalize stopped : some 0 = returned at next
      cases next with
      | null => cases stopped
      | exhausted others => exact others
      | found i here =>
        cases stopped
        omega
    refine .inr ⟨[], result, .nil, fun i => ⟨nofun, ?_⟩, ?_⟩
    · rintro ⟨low, high, starts⟩
      rw [others i low high] at starts
      cases starts
    · intro i low high
      rw [others i low high]
      simp
  | case3 lastIdx idx step ih =>
    have next := htab.hmatchLoop_next text (lastIdx + 1)
    have result : htab.hmatchAll text lastIdx =
        (htab.hmatchAll text (idx + 1)).map ((idx + 1) :: ·) := by
      rw [hmatchAll]
      split <;> simp_all
    rw [hmatchR] at step
    rw [step] at next
    cases next with
    | found i here starts others =>
      rcases ih with ⟨undefined, i, low, high, null⟩ | ⟨list, listed, distinct, members, defined⟩
      · exact .inl ⟨by rw [result, undefined, Option.map_none], i, by omega, high, null⟩
      · refine .inr ⟨(idx + 1) :: list, by rw [result, listed, Option.map_some], ?_, ?_, ?_⟩
        · refine List.nodup_cons.mpr ⟨fun again => ?_, distinct⟩
          have := ((members _).mp again).1
          omega
        · intro i
          rw [List.mem_cons, members]
          constructor
          · rintro (rfl | ⟨low, high, startsLater⟩)
            · exact ⟨by omega, here.2, starts⟩
            · exact ⟨by omega, high, startsLater⟩
          · rintro ⟨low, high, startsHere⟩
            rcases Nat.lt_trichotomy i (idx + 1) with before | same | behind
            · rw [others i (by omega) before] at startsHere
              cases startsHere
            · exact .inl same
            · exact .inr ⟨behind, high, startsHere⟩
        · intro i low high
          rcases Nat.lt_trichotomy i (idx + 1) with before | rfl | behind
          · rw [others i (by omega) before]
            simp
          · rw [starts]
            simp
          · exact defined i behind high

/-- The listing from index 0 has every live entry whose key starts with the string exactly once, and
nothing else. -/
def Lists (htab : PointerTable) (text : CString) : Prop :=
  ∃ list, htab.hmatchAll text 0 = some list ∧ list.Nodup ∧
    ∀ i, i ∈ list ↔ (htab.table i).startsWith text = some true

/-! ## Where entries can be -/

/-- The table has a size that `hcreate_r` chooses, and no entry behind its last bucket. -/
structure Bounded (htab : PointerTable) : Prop where
  size : GoodSize htab.size
  live : ∀ {i used key data}, htab.table i = .live used key data → i ≤ htab.size

theorem next_le {size step idx : Nat} (bucket : idx ≤ size) : Probe.next size step idx ≤ size := by
  unfold Probe.next
  split <;> omega

def endIndex : ProbeEnd → Nat
  | .found idx => idx
  | .stopped idx => idx

theorem probeLoop_le (htab : PointerTable) (key : CString) {hval hval2 fuel last : Nat}
    (bucket : last ≤ htab.size) {ended : ProbeEnd}
    (ends : htab.probeLoop key hval hval2 fuel last = some ended) : endIndex ended ≤ htab.size := by
  induction fuel generalizing last with
  | zero => cases ends
  | succ fuel ih =>
    have next := @next_le htab.size hval2 last bucket
    rw [probeLoop] at ends
    split at ends
    · cases ends
      exact next
    · split at ends
      · cases ends
      · cases ends
        exact next
      · split at ends
        · cases ends
          exact next
        · exact ih next ends

variable {htab : PointerTable}

theorem Bounded.locate_le (bounded : Bounded htab) {key : CString} {ended : ProbeEnd}
    (ends : htab.locate key = some ended) : endIndex ended ≤ htab.size := by
  have first := (firstHash_bounds bounded.size key).2
  rw [locate] at ends
  split at ends
  · cases ends
    exact first
  · split at ends
    · cases ends
    · cases ends
      exact first
    · exact htab.probeLoop_le key first ends

theorem Bounded.setSlot (bounded : Bounded htab) {idx : Nat} (bucket : idx ≤ htab.size)
    (slot : Slot) (filled : Nat) :
    Bounded { htab.setSlot idx slot with filled := filled } where
  size := bounded.size
  live := by
    intro i used key data live
    by_cases same : i = idx
    · exact same ▸ bucket
    · exact bounded.live ((htab.setSlot_other slot same).symm.trans live)

/-- Every call leaves the entries at or below the last bucket. -/
theorem Bounded.call {htab : PointerTable} (bounded : Bounded htab) {call : Call}
    {returned : Except Failure Unit × PointerTable} (called : htab.call call = some returned) :
    Bounded returned.2 := by
  cases call with
  | enter key data outcome =>
    simp only [PointerTable.call, hsearchEnter] at called
    cases ends : htab.locate key with
    | none =>
      rw [ends] at called
      cases called
    | some ended =>
      have bucket := bounded.locate_le ends
      rw [ends] at called
      cases ended with
      | found idx =>
        cases called
        unfold overwriteEntry
        split
        · exact bounded
        · split
          · exact bounded
          · split
            · exact bounded.setSlot bucket _ htab.filled
            · exact bounded.setSlot bucket _ htab.filled
      | stopped idx =>
        cases called
        have claimed : htab.claimed key idx ≤ htab.size := by
          unfold claimed
          split
          · exact (firstHash_bounds bounded.size key).2
          · exact bucket
        unfold createEntry
        split
        · exact bounded
        · dsimp only
          split
          · exact bounded.setSlot claimed _ htab.filled
          · split
            · exact (bounded.setSlot claimed _ _).setSlot claimed _ _
            · split
              · exact (bounded.setSlot claimed _ _).setSlot claimed _ _
              · exact bounded.setSlot claimed _ _
  | delete key outcome =>
    simp only [PointerTable.call, hdeleteR] at called
    cases ends : htab.locate key with
    | none =>
      rw [ends] at called
      cases called
    | some ended =>
      have bucket := bounded.locate_le ends
      rw [ends] at called
      cases ended with
      | stopped idx =>
        cases called
        exact bounded
      | found idx =>
        dsimp only at called
        split at called
        · cases called
          exact bounded
        · split at called
          · cases called
            exact bounded
          · cases called
            exact bounded.setSlot bucket _ _

theorem Bounded.calls {after : PointerTable} (bounded : Bounded htab) {history : List Call}
    (ran : htab.calls history = some after) : Bounded after := by
  induction history generalizing htab with
  | nil =>
    cases ran
    exact bounded
  | cons call rest ih =>
    obtain ⟨returned, called, later⟩ := Option.bind_eq_some_iff.mp ran
    exact ih (bounded.call called) later

theorem hcreateR_bounded {nel : Nat} {htab : HsearchData} (created : hcreateR nel = some htab) :
    Bounded htab.pointers := by
  have intact := hcreateR_intact created
  refine ⟨intact.size, ?_⟩
  intro i used key data live
  obtain ⟨key', data', -, -, bucket⟩ := Bucket.slot_eq_live.mp live
  obtain ⟨-, j, within, here, -⟩ := intact.reached bucket
  have := probePath_bounds intact.size key' within
  exact here ▸ this.2

/-- Behind every history of calls on a table made by `hcreate_r`, the listing of a prefix is
complete and free of repetitions exactly if the last bucket is not an entry with the prefix (nor
bucket 0, which only a table of one bucket comes to use) and no null pointer is in its way. -/
theorem lists_iff {nel : Nat} {htab : HsearchData} (created : hcreateR nel = some htab)
    {history : List Call} {after : PointerTable}
    (ran : htab.pointers.calls history = some after) (text : CString) :
    after.Lists text ↔
      (∀ i, i = 0 ∨ i = after.size → (after.table i).startsWith text ≠ some true) ∧
        ∀ i, 0 < i → i < after.size → (after.table i).startsWith text ≠ none := by
  have bounded := (hcreateR_bounded created).calls ran
  constructor
  · rintro ⟨list, listed, distinct, members⟩
    rcases after.hmatchAll_spec text 0 with ⟨undefined, -⟩ | ⟨list', listed', -, inside, defined⟩
    · rw [listed] at undefined
      cases undefined
    · rw [listed] at listed'
      cases listed'
      refine ⟨fun i outside starts => ?_, fun i low high => defined i low high⟩
      have := (inside i).mp ((members i).mpr starts)
      omega
  · rintro ⟨outside, defined⟩
    rcases after.hmatchAll_spec text 0 with ⟨-, i, low, high, null⟩ |
      ⟨list, listed, distinct, members, -⟩
    · exact absurd null (defined i low high)
    · refine ⟨list, listed, distinct, fun i => ?_⟩
      rw [members]
      refine ⟨fun inside => inside.2.2, fun starts => ?_⟩
      have below : i ≤ after.size := by
        cases slot : after.table i with
        | empty =>
          rw [slot] at starts
          cases starts
        | deleted =>
          rw [slot] at starts
          cases starts
        | live used key data => exact bounded.live slot
      have notOutside : ¬(i = 0 ∨ i = after.size) := fun here => outside i here starts
      exact ⟨by omega, by omega, starts⟩

/-- One entry is listed. -/
theorem lists_iff_one :
    ∃ after, fiveBuckets.pointers.calls [.enter [97] [1] succeeds] = some after ∧
      (after.Lists [97] ↔
        (∀ i, i = 0 ∨ i = after.size → (after.table i).startsWith [97] ≠ some true) ∧
          ∀ i, 0 < i → i < after.size → (after.table i).startsWith [97] ≠ none) := by
  refine ⟨_, rfl, ?_⟩
  exact @lists_iff 5 fiveBuckets hcreateR_five [.enter [97] [1] succeeds] _ rfl [97]

/-- The third of three keys with the first hash 4 goes to bucket 5 of five, and is not listed. -/
theorem lastBucket_not_listed :
    ∃ after, fiveBuckets.pointers.calls
        [.enter [98] [1] succeeds, .enter [103] [2] succeeds, .enter [108] [3] succeeds] =
        some after ∧
      after.table 5 = .live 4 (some [108]) (some [3]) ∧ ¬after.Lists [108] := by
  refine ⟨_, rfl, rfl, ?_⟩
  rintro ⟨list, listed, -, members⟩
  rcases hmatchAll_spec _ [108] 0 with ⟨undefined, -⟩ | ⟨list', listed', -, inside, -⟩
  · rw [listed] at undefined
    cases undefined
  · rw [listed] at listed'
    cases listed'
    have := ((inside 5).mp ((members 5).mpr rfl)).2.1
    exact absurd this (by decide)

end PointerTable

end HrppBoot.Env
