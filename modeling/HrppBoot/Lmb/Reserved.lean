import HrppBoot.Lmb.Table
import Mathlib.Tactic.Ring

/-!
# The reserved memory

`Table` is the invariant of a table of regions: sorted, with a gap between neighbours. One lemma for
each way a table changes says that it stays such a table and which addresses it covers then. From
these the table covers what was reserved and not freed, in every run in which nothing is reserved
while the table is empty. An empty table holds on to its old entries.
-/

namespace HrppBoot.Lmb

/-! ## Ranges -/

namespace LmbProperty

/-- First address. -/
def lo (range : LmbProperty) : Nat := range.base.toNat

/-- The address behind the last one. -/
def hi (range : LmbProperty) : Nat := range.base.toNat + range.size.toNat

/-- The range has the address. -/
def Holds (range : LmbProperty) (a : Nat) : Prop := range.lo ≤ a ∧ a < range.hi

/-- The range has addresses, and its end is an address too. -/
structure Proper (range : LmbProperty) : Prop where
  nonempty : range.lo < range.hi
  noWrap : range.hi < 2 ^ 32

variable {range : LmbProperty}

theorem Proper.toNat_end (proper : range.Proper) :
    (range.base + range.size).toNat = range.hi := by
  rw [UInt32.toNat_add]
  exact Nat.mod_eq_of_lt proper.noWrap

theorem Proper.toNat_upper (proper : range.Proper) :
    (range.base + range.size - 1).toNat = range.hi - 1 := by
  have nonempty := proper.nonempty
  have one : (1 : UInt32) ≤ range.base + range.size := by
    rw [UInt32.le_iff_toNat_le, proper.toNat_end, UInt32.toNat_one]
    omega
  rw [UInt32.toNat_sub_of_le _ _ one, proper.toNat_end, UInt32.toNat_one]

theorem Proper.apart {other : LmbProperty} (proper : range.Proper) (proper' : other.Proper)
    (disjoint : ∀ a, range.Holds a → ¬other.Holds a) :
    range.hi ≤ other.lo ∨ other.hi ≤ range.lo := by
  by_contra overlap
  have nonempty := proper.nonempty
  have nonempty' := proper'.nonempty
  apply disjoint (max range.lo other.lo)
  · unfold Holds
    omega
  · unfold Holds
    omega

theorem Proper.adjacent {other : LmbProperty} (proper : range.Proper) (proper' : other.Proper) :
    lmbAddrsAdjacent range.base range.size other.base other.size =
      if range.hi = other.lo then 1 else if other.hi = range.lo then -1 else 0 := by
  simp only [lmbAddrsAdjacent, ← UInt32.toNat_inj, proper.toNat_end, proper'.toNat_end, lo, eq_comm]

end LmbProperty

/-! ## Tables -/

/-- The regions of a table are sorted, disjoint and not adjacent. -/
structure Table (rgn : LmbRegion) : Prop where
  bound : rgn.cnt ≤ maxLmbRegions
  proper : ∀ i < rgn.cnt, (rgn.region i).Proper
  gap : ∀ i j, i < j → j < rgn.cnt → (rgn.region i).hi < (rgn.region j).lo

/-- A region of the table has the address. -/
def Covers (rgn : LmbRegion) (a : Nat) : Prop := ∃ i < rgn.cnt, (rgn.region i).Holds a

/-- A region but the one at an index has the address. -/
def Others (rgn : LmbRegion) (i a : Nat) : Prop := ∃ j < rgn.cnt, j ≠ i ∧ (rgn.region j).Holds a

/-- A table with one entry replaced. -/
def LmbRegion.set (rgn : LmbRegion) (i : Nat) (entry : LmbProperty) : LmbRegion :=
  { rgn with region := Function.update rgn.region i entry }

section Table

variable {rgn : LmbRegion}

theorem covers_iff (rgn : LmbRegion) {i : Nat} (inside : i < rgn.cnt) (a : Nat) :
    Covers rgn a ↔ (rgn.region i).Holds a ∨ Others rgn i a := by
  constructor
  · rintro ⟨j, below, holds⟩
    by_cases same : j = i
    · exact .inl (same ▸ holds)
    · exact .inr ⟨j, below, same, holds⟩
  · rintro (holds | ⟨j, below, -, holds⟩)
    · exact ⟨i, inside, holds⟩
    · exact ⟨j, below, holds⟩

theorem covers_set {i : Nat} (inside : i < rgn.cnt) (entry : LmbProperty) (a : Nat) :
    Covers (rgn.set i entry) a ↔ entry.Holds a ∨ Others rgn i a := by
  rw [covers_iff (rgn.set i entry) inside]
  unfold Others
  simp only [LmbRegion.set, Function.update_self]
  constructor
  · rintro (holds | ⟨j, below, different, holds⟩)
    · exact .inl holds
    · rw [Function.update_of_ne different] at holds
      exact .inr ⟨j, below, different, holds⟩
  · rintro (holds | ⟨j, below, different, holds⟩)
    · exact .inl holds
    · refine .inr ⟨j, below, different, ?_⟩
      rwa [Function.update_of_ne different]

variable (table : Table rgn)
include table

theorem Table.others {i a : Nat} (inside : i < rgn.cnt) (other : Others rgn i a) :
    ¬(rgn.region i).Holds a := by
  obtain ⟨j, below, different, holds⟩ := other
  unfold LmbProperty.Holds at *
  rcases Nat.lt_or_gt_of_ne different with less | greater
  · have gap := table.gap j i less inside
    omega
  · have gap := table.gap i j greater below
    omega

theorem Table.isReserved (a : UInt32) : lmbIsReserved rgn a = true ↔ Covers rgn a.toNat := by
  unfold lmbIsReserved Covers
  rw [List.any_eq_true]
  constructor
  · rintro ⟨i, member, holds⟩
    rw [List.mem_range] at member
    rw [decide_eq_true_eq, UInt32.le_iff_toNat_le, UInt32.le_iff_toNat_le,
      (table.proper i member).toNat_upper] at holds
    have nonempty := (table.proper i member).nonempty
    exact ⟨i, member, holds.1, by omega⟩
  · rintro ⟨i, inside, low, high⟩
    refine ⟨i, List.mem_range.mpr inside, ?_⟩
    rw [decide_eq_true_eq, UInt32.le_iff_toNat_le, UInt32.le_iff_toNat_le,
      (table.proper i inside).toNat_upper]
    exact ⟨low, by omega⟩

theorem Table.set {i : Nat} {entry : LmbProperty} (proper : entry.Proper)
    (before : ∀ j < i, (rgn.region j).hi < entry.lo)
    (behind : ∀ j < rgn.cnt, i < j → entry.hi < (rgn.region j).lo) : Table (rgn.set i entry) where
  bound := table.bound
  proper := by
    intro j inside
    unfold LmbRegion.set
    by_cases same : j = i
    · rw [same]
      simpa using proper
    · simpa [Function.update_of_ne same] using table.proper j inside
  gap := by
    intro j k less inside
    simp only [LmbRegion.set, Function.update_apply] at inside ⊢
    by_cases first : j = i
    · subst first
      rw [if_pos rfl, if_neg (by omega)]
      exact behind k inside less
    · by_cases second : k = i
      · subst second
        rw [if_neg first, if_pos rfl]
        exact before j less
      · rw [if_neg first, if_neg second]
        exact table.gap j k less inside

end Table

/-! ## Removing an entry -/

theorem moveDown_eq (region : Nat → LmbProperty) (i turns j : Nat) :
    moveDown region i turns j = if i ≤ j ∧ j < i + turns then region (j + 1) else region j := by
  induction turns generalizing region i with
  | zero =>
    rw [moveDown, if_neg (by omega)]
  | succ turns ih =>
    rw [moveDown, ih]
    by_cases here : j = i
    · subst here
      rw [if_neg (by omega), if_pos (by omega), Function.update_self]
    · by_cases later : i + 1 ≤ j ∧ j < i + 1 + turns
      · rw [if_pos later, if_pos (by omega), Function.update_of_ne (by omega)]
      · rw [if_neg later, if_neg (by omega), Function.update_of_ne here]

/-- A table without one of its entries. -/
def LmbRegion.erase (rgn : LmbRegion) (r : Nat) : LmbRegion where
  cnt := rgn.cnt - 1
  region := moveDown rgn.region r (rgn.cnt - 1 - r)

section Erase

variable {rgn : LmbRegion} {r : Nat} (inside : r < rgn.cnt)
include inside

theorem lmbRemoveRegion_eq : lmbRemoveRegion rgn r = some (rgn.erase r) := by
  have some : rgn.cnt ≠ 0 := by omega
  simp only [lmbRemoveRegion, LmbRegion.last, if_neg some, LmbRegion.erase]

theorem erase_region {j : Nat} (below : j < rgn.cnt - 1) :
    (rgn.erase r).region j = rgn.region (if j < r then j else j + 1) := by
  simp only [LmbRegion.erase, moveDown_eq]
  by_cases before : j < r
  · rw [if_neg (by omega), if_pos before]
  · rw [if_pos (by omega), if_neg before]

theorem covers_erase (a : Nat) : Covers (rgn.erase r) a ↔ Others rgn r a := by
  constructor
  · rintro ⟨j, below, holds⟩
    rw [erase_region inside below] at holds
    have less : j < rgn.cnt - 1 := below
    refine ⟨_, ?_, ?_, holds⟩
    · split <;> omega
    · split <;> omega
  · rintro ⟨j, below, different, holds⟩
    by_cases before : j < r
    · refine ⟨j, show j < rgn.cnt - 1 by omega, ?_⟩
      rwa [erase_region inside (by omega), if_pos before]
    · refine ⟨j - 1, show j - 1 < rgn.cnt - 1 by omega, ?_⟩
      rwa [erase_region inside (by omega), if_neg (by omega), Nat.sub_add_cancel (by omega)]

theorem Table.erase (table : Table rgn) : Table (rgn.erase r) where
  bound := (Nat.sub_le _ _).trans table.bound
  proper := by
    intro j below
    have less : j < rgn.cnt - 1 := below
    rw [erase_region inside below]
    apply table.proper
    split <;> omega
  gap := by
    intro j k less below
    have last : k < rgn.cnt - 1 := below
    rw [erase_region inside (by omega), erase_region inside below]
    apply table.gap
    · split <;> split <;> omega
    · split <;> omega

end Erase

theorem erase_set {rgn : LmbRegion} {k r : Nat} (before : k < r) (entry : LmbProperty) :
    (rgn.set k entry).erase r = (rgn.erase r).set k entry := by
  unfold LmbRegion.erase LmbRegion.set
  congr 1
  funext j
  simp only [moveDown_eq, Function.update_apply]
  by_cases here : j = k
  · rw [if_neg (by omega), if_pos here, if_pos here]
  · by_cases moved : r ≤ j ∧ j < r + (rgn.cnt - 1 - r)
    · rw [if_pos moved, if_pos moved, if_neg here, if_neg (by omega)]
    · rw [if_neg moved, if_neg moved, if_neg here]

/-! ## Adding an entry -/

/-- Where the second loop of `lmb_add_region` puts the range, and what it leaves. -/
theorem moveUp_spec (region : Nat → LmbProperty) (base size : UInt32) (cnt : Nat) :
    ∃ k ≤ cnt, (∀ i < cnt, k ≤ i → base < (region i).base) ∧
      (∀ i, i + 1 = k → ¬base < (region i).base) ∧
      ∀ j, moveUp region base size cnt j =
        if j < k ∨ cnt < j then region j
        else if j = k then (if k = 0 then region 0 else ⟨base, size⟩)
        else region (j - 1) := by
  induction cnt generalizing region with
  | zero =>
    refine ⟨0, Nat.le_refl _, by omega, by omega, fun j => ?_⟩
    rw [moveUp]
    by_cases zero : j = 0
    · simp [zero]
    · rw [if_pos (by omega)]
  | succ cnt ih =>
    rw [moveUp]
    by_cases less : base < (region cnt).base
    · rw [if_pos less]
      obtain ⟨k, bound, behind, before, shape⟩ :=
        ih (Function.update region (cnt + 1) (region cnt))
      refine ⟨k, by omega, ?_, ?_, ?_⟩
      · intro i inside after
        by_cases last : i = cnt
        · rwa [last]
        · have found := behind i (by omega) after
          rwa [Function.update_of_ne (by omega)] at found
      · intro i previous
        have found := before i previous
        rwa [Function.update_of_ne (by omega)] at found
      · intro j
        rw [shape]
        by_cases last : j = cnt + 1
        · subst last
          rw [if_pos (by omega), if_neg (by omega), if_neg (by omega), Function.update_self,
            Nat.add_sub_cancel]
        · by_cases out : j < k ∨ cnt < j
          · rw [if_pos out, if_pos (by omega), Function.update_of_ne last]
          · rw [if_neg out, if_neg (show ¬(j < k ∨ cnt + 1 < j) by omega),
              Function.update_of_ne (show 0 ≠ cnt + 1 by omega),
              Function.update_of_ne (show j - 1 ≠ cnt + 1 by omega)]
    · rw [if_neg less]
      refine ⟨cnt + 1, Nat.le_refl _, by omega, ?_, ?_⟩
      · intro i previous
        rwa [show i = cnt by omega]
      · intro j
        by_cases here : j = cnt + 1
        · simp [here]
        · rw [Function.update_of_ne here, if_pos (by omega)]

theorem Table.lo_le {rgn : LmbRegion} (table : Table rgn) {i j : Nat} (before : i ≤ j)
    (inside : j < rgn.cnt) : (rgn.region i).lo ≤ (rgn.region j).lo := by
  rcases Nat.eq_or_lt_of_le before with rfl | less
  · exact Nat.le_refl _
  · have gap := table.gap i j less inside
    have nonempty := (table.proper i (by omega)).nonempty
    omega

/-- A new entry stands before those with a higher base and behind the others. -/
theorem insertRegion_spec {rgn : LmbRegion} (range : LmbProperty) (table : Table rgn)
    (room : rgn.cnt < maxLmbRegions) (filled : 0 < rgn.cnt) :
    ∃ k ≤ rgn.cnt, ∃ after, insertRegion rgn range.base range.size = (0, after) ∧
      after.cnt = rgn.cnt + 1 ∧ (∀ i < rgn.cnt, k ≤ i → range.lo < (rgn.region i).lo) ∧
      (∀ i < k, (rgn.region i).lo ≤ range.lo) ∧
      ∀ j ≤ rgn.cnt, after.region j =
        if j < k then rgn.region j else if j = k then range else rgn.region (j - 1) := by
  obtain ⟨k, bound, behind, before, shape⟩ :=
    moveUp_spec rgn.region range.base range.size rgn.cnt
  have lower : ∀ i < k, (rgn.region i).lo ≤ range.lo := by
    intro i less
    have last := before (k - 1) (by omega)
    rw [UInt32.lt_iff_toNat_lt, Nat.not_lt] at last
    exact (table.lo_le (show i ≤ k - 1 by omega) (by omega)).trans last
  have start : moveUp rgn.region range.base range.size rgn.cnt 0 = rgn.region 0 := by
    rw [shape]
    by_cases first : k = 0
    · simp [first]
    · rw [if_pos (by omega)]
  refine ⟨k, bound, _, by rw [insertRegion, if_neg (by omega)], rfl,
    fun i inside after => UInt32.lt_iff_toNat_lt.mp (behind i inside after), lower, ?_⟩
  intro j inside
  simp only [start]
  by_cases first : k = 0
  · subst first
    rw [if_pos (behind 0 filled (Nat.le_refl _))]
    by_cases zero : j = 0
    · simp [zero]
    · rw [Function.update_of_ne zero, shape, if_neg (by omega), if_neg zero, if_neg (by omega),
        if_neg zero]
  · have notFirst : ¬range.base < (rgn.region 0).base := by
      rw [UInt32.lt_iff_toNat_lt, Nat.not_lt]
      exact lower 0 (by omega)
    rw [if_neg notFirst, shape]
    by_cases less : j < k
    · rw [if_pos (.inl less), if_pos less]
    · rw [if_neg (by omega), if_neg less, if_neg first]

/-- `lmb_coalesce_regions` makes one entry of a new entry and the next. -/
theorem Table.coalesce {rgn : LmbRegion} (table : Table rgn) {k : Nat} {joined : LmbProperty}
    (more : k + 1 < rgn.cnt) (whole : joined.Proper)
    (before : ∀ j < k, (rgn.region j).hi < joined.lo)
    (touches : joined.hi = (rgn.region (k + 1)).lo) :
    ∃ after, lmbCoalesceRegions (rgn.set k joined) k (k + 1) = some after ∧ Table after ∧
      0 < after.cnt ∧ ∀ a, Covers after a ↔ joined.Holds a ∨ Others rgn k a := by
  have next := table.proper (k + 1) more
  have nonempty := whole.nonempty
  have nonempty' := next.nonempty
  have noWrap := next.noWrap
  let both : LmbProperty := ⟨joined.base, joined.size + (rgn.region (k + 1)).size⟩
  have low : both.lo = joined.lo := rfl
  have high : both.hi = (rgn.region (k + 1)).hi := by
    have own : joined.hi = joined.lo + joined.size.toNat := rfl
    have other : (rgn.region (k + 1)).hi =
        (rgn.region (k + 1)).lo + (rgn.region (k + 1)).size.toNat := rfl
    have total : (joined.size + (rgn.region (k + 1)).size).toNat =
        joined.size.toNat + (rgn.region (k + 1)).size.toNat := by
      rw [UInt32.toNat_add]
      exact Nat.mod_eq_of_lt (by omega)
    change joined.lo + (joined.size + (rgn.region (k + 1)).size).toNat = _
    omega
  have removed : lmbCoalesceRegions (rgn.set k joined) k (k + 1) =
      some ((rgn.erase (k + 1)).set k both) := by
    have kept : k + 1 < (rgn.set k both).cnt := more
    rw [← erase_set (Nat.lt_succ_self k), ← lmbRemoveRegion_eq kept]
    simp [lmbCoalesceRegions, LmbRegion.set, both]
  have erased := table.erase more
  have here : k < (rgn.erase (k + 1)).cnt := show k < rgn.cnt - 1 by omega
  refine ⟨_, removed, erased.set ⟨by omega, by omega⟩ ?_ ?_, Nat.zero_lt_of_lt here, ?_⟩
  · intro j less
    rw [erase_region more (by omega), if_pos (by omega), low]
    exact before j less
  · intro j below after
    have inside : j < rgn.cnt - 1 := below
    rw [erase_region more inside, if_neg (by omega), high]
    exact table.gap (k + 1) (j + 1) (by omega) (by omega)
  · intro a
    rw [covers_set here]
    constructor
    · rintro (holds | ⟨j, below, different, holds⟩)
      · by_cases early : a < joined.hi
        · exact .inl ⟨low ▸ holds.1, early⟩
        · exact .inr ⟨k + 1, more, by omega, by omega, high ▸ holds.2⟩
      · have inside : j < rgn.cnt - 1 := below
        rw [erase_region more inside] at holds
        refine .inr ⟨_, ?_, ?_, holds⟩
        · split <;> omega
        · split <;> omega
    · rintro (holds | ⟨j, below, different, holds⟩)
      · exact .inl ⟨holds.1, by have := holds.2; omega⟩
      · by_cases following : j = k + 1
        · subst following
          exact .inl ⟨by have := holds.1; omega, high ▸ holds.2⟩
        · right
          by_cases less : j < k
          · refine ⟨j, show j < rgn.cnt - 1 by omega, different, ?_⟩
            rwa [erase_region more (by omega), if_pos (by omega)]
          · refine ⟨j - 1, show j - 1 < rgn.cnt - 1 by omega, by omega, ?_⟩
            rwa [erase_region more (by omega), if_neg (by omega), Nat.sub_add_cancel (by omega)]

/-- Neither of two ranges starts where the other ends. -/
def Lonely (entry range : LmbProperty) : Prop := range.hi ≠ entry.lo ∧ entry.hi ≠ range.lo

/-- An entry and a range next to it, together. -/
structure Joins (entry range joined : LmbProperty) : Prop where
  next : range.hi = entry.lo ∨ entry.hi = range.lo
  lo : joined.lo = min entry.lo range.lo
  hi : joined.hi = max entry.hi range.hi

section Add

variable {rgn : LmbRegion} (table : Table rgn) (filled : 0 < rgn.cnt) {range : LmbProperty}
  (proper : range.Proper) (disjoint : ∀ a, range.Holds a → ¬Covers rgn a)
include table proper disjoint

theorem Table.before_or_behind {i : Nat} (inside : i < rgn.cnt) :
    range.hi ≤ (rgn.region i).lo ∨ (rgn.region i).hi ≤ range.lo :=
  proper.apart (table.proper i inside) fun a holds covered => disjoint a holds ⟨i, inside, covered⟩

include filled in
/-- A range that is next to no region becomes an entry. -/
theorem Table.insert (lonely : ∀ i < rgn.cnt, Lonely (rgn.region i) range)
    (room : rgn.cnt < maxLmbRegions) :
    ∃ after, insertRegion rgn range.base range.size = (0, after) ∧ Table after ∧
      ∀ a, Covers after a ↔ range.Holds a ∨ Covers rgn a := by
  obtain ⟨k, bound, after, inserted, count, higher, lower, shape⟩ :=
    insertRegion_spec range table room filled
  have nonempty := proper.nonempty
  have behind : ∀ i < rgn.cnt, k ≤ i → range.hi < (rgn.region i).lo := by
    intro i inside above
    have separate := table.before_or_behind proper disjoint inside
    have base := higher i inside above
    have own := (table.proper i inside).nonempty
    have apart := lonely i inside
    unfold Lonely at apart
    omega
  have before : ∀ i < k, (rgn.region i).hi < range.lo := by
    intro i less
    have separate := table.before_or_behind proper disjoint (show i < rgn.cnt by omega)
    have base := lower i less
    have apart := lonely i (by omega)
    unfold Lonely at apart
    omega
  refine ⟨after, inserted, ⟨by omega, ?_, ?_⟩, ?_⟩
  · intro j inside
    rw [shape j (by omega)]
    by_cases less : j < k
    · rw [if_pos less]
      exact table.proper j (by omega)
    · rw [if_neg less]
      by_cases here : j = k
      · rwa [if_pos here]
      · rw [if_neg here]
        exact table.proper (j - 1) (by omega)
  · intro i j less inside
    rw [shape i (by omega), shape j (by omega)]
    by_cases first : i < k
    · rw [if_pos first]
      by_cases second : j < k
      · rw [if_pos second]
        exact table.gap i j less (by omega)
      · rw [if_neg second]
        by_cases here : j = k
        · rw [if_pos here]
          exact before i first
        · rw [if_neg here]
          exact table.gap i (j - 1) (by omega) (by omega)
    · rw [if_neg first, if_neg (show ¬j < k by omega), if_neg (show ¬j = k by omega)]
      by_cases here : i = k
      · rw [if_pos here]
        exact behind (j - 1) (by omega) (by omega)
      · rw [if_neg here]
        exact table.gap (i - 1) (j - 1) (by omega) (by omega)
  · intro a
    constructor
    · rintro ⟨j, inside, holds⟩
      rw [shape j (by omega)] at holds
      by_cases less : j < k
      · rw [if_pos less] at holds
        exact .inr ⟨j, by omega, holds⟩
      · rw [if_neg less] at holds
        by_cases here : j = k
        · rw [if_pos here] at holds
          exact .inl holds
        · rw [if_neg here] at holds
          exact .inr ⟨j - 1, by omega, holds⟩
    · rintro (holds | ⟨j, inside, holds⟩)
      · refine ⟨k, by omega, ?_⟩
        rwa [shape k bound, if_neg (Nat.lt_irrefl _), if_pos rfl]
      · by_cases less : j < k
        · refine ⟨j, by omega, ?_⟩
          rwa [shape j (by omega), if_pos less]
        · refine ⟨j + 1, by omega, ?_⟩
          rwa [shape (j + 1) (by omega), if_neg (by omega), if_neg (by omega), Nat.add_sub_cancel]

/-- What the first loop of `lmb_add_region` finds. -/
theorem Table.findNeighbour_spec (i turns : Nat) (left : i + turns = rgn.cnt)
    (earlier : ∀ j < i, Lonely (rgn.region j) range) :
    match findNeighbour rgn.region range.base range.size i turns with
    | .same => False
    | .joins k joined => k < rgn.cnt ∧ (∀ j < k, Lonely (rgn.region j) range) ∧
        Joins (rgn.region k) range joined
    | .none => ∀ j < rgn.cnt, Lonely (rgn.region j) range := by
  induction turns generalizing i with
  | zero =>
    rw [findNeighbour]
    intro j inside
    exact earlier j (by omega)
  | succ turns ih =>
    have inside : i < rgn.cnt := by omega
    have own := table.proper i inside
    have separate := table.before_or_behind proper disjoint inside
    have nonempty := proper.nonempty
    have nonempty' := own.nonempty
    have different : ¬((rgn.region i).base = range.base ∧ (rgn.region i).size = range.size) := by
      rintro ⟨sameBase, sameSize⟩
      unfold LmbProperty.hi LmbProperty.lo at *
      rw [sameBase, sameSize] at separate
      omega
    rw [findNeighbour, if_neg different, proper.adjacent own]
    have sizes : range.lo + range.size.toNat = range.hi ∧
        (rgn.region i).lo + (rgn.region i).size.toNat = (rgn.region i).hi := ⟨rfl, rfl⟩
    have wraps := proper.noWrap
    have wraps' := own.noWrap
    by_cases below : range.hi = (rgn.region i).lo
    · simp only [if_pos below, show (0 : Int) < 1 by decide, ↓reduceIte]
      have total : ((rgn.region i).size + range.size).toNat =
          (rgn.region i).size.toNat + range.size.toNat := by
        rw [UInt32.toNat_add]
        exact Nat.mod_eq_of_lt (by omega)
      have start : ((rgn.region i).base - range.size).toNat = range.lo := by
        have enough : range.size ≤ (rgn.region i).base := by
          rw [UInt32.le_iff_toNat_le]
          change _ ≤ (rgn.region i).lo
          omega
        rw [UInt32.toNat_sub_of_le _ _ enough]
        change (rgn.region i).lo - _ = _
        omega
      refine ⟨inside, earlier, .inl below, ?_, ?_⟩
      · change ((rgn.region i).base - range.size).toNat = _
        omega
      · change ((rgn.region i).base - range.size).toNat +
          ((rgn.region i).size + range.size).toNat = _
        omega
    · by_cases above : (rgn.region i).hi = range.lo
      · simp only [if_neg below, if_pos above, show ¬(0 : Int) < -1 by decide,
          show (-1 : Int) < 0 by decide, ↓reduceIte]
        have total : ((rgn.region i).size + range.size).toNat =
            (rgn.region i).size.toNat + range.size.toNat := by
          rw [UInt32.toNat_add]
          exact Nat.mod_eq_of_lt (by omega)
        refine ⟨inside, earlier, .inr above, ?_, ?_⟩
        · change (rgn.region i).lo = _
          omega
        · change (rgn.region i).lo + ((rgn.region i).size + range.size).toNat = _
          omega
      · simp only [if_neg below, if_neg above, Int.lt_irrefl, ↓reduceIte]
        apply ih (i + 1) (by omega)
        intro j less
        by_cases last : j = i
        · rw [last]
          exact ⟨below, above⟩
        · exact earlier j (by omega)

theorem Table.behind_joined {k : Nat} (inside : k < rgn.cnt) {joined : LmbProperty}
    (joins : Joins (rgn.region k) range joined) {j : Nat} (below : j < rgn.cnt) (after : k < j) :
    joined.hi ≤ (rgn.region j).lo ∧ (joined.hi = (rgn.region j).lo → j = k + 1) := by
  have nonempty := proper.nonempty
  have nonempty' := (table.proper k inside).nonempty
  have gap := table.gap k j after below
  have own := (table.proper j below).nonempty
  have separate := table.before_or_behind proper disjoint below
  have next := joins.next
  have high := joins.hi
  refine ⟨by omega, ?_⟩
  intro touches
  by_contra notNext
  have between := table.before_or_behind proper disjoint (show k + 1 < rgn.cnt by omega)
  have gapNext := table.gap k (k + 1) (by omega) (by omega)
  have gapLast := table.gap (k + 1) j (by omega) below
  have ownNext := (table.proper (k + 1) (by omega)).nonempty
  omega

theorem Table.joined {k : Nat} (inside : k < rgn.cnt)
    (first : ∀ j < k, Lonely (rgn.region j) range) {joined : LmbProperty}
    (joins : Joins (rgn.region k) range joined) :
    joined.Proper ∧ (∀ j < k, (rgn.region j).hi < joined.lo) ∧
      ∀ a, joined.Holds a ↔ range.Holds a ∨ (rgn.region k).Holds a := by
  have nonempty := proper.nonempty
  have nonempty' := (table.proper k inside).nonempty
  have noWrap := proper.noWrap
  have noWrap' := (table.proper k inside).noWrap
  have next := joins.next
  have low := joins.lo
  have high := joins.hi
  refine ⟨⟨by omega, by omega⟩, ?_, ?_⟩
  · intro j less
    have gap := table.gap j k less inside
    have separate := table.before_or_behind proper disjoint (show j < rgn.cnt by omega)
    have own := (table.proper j (by omega)).nonempty
    have lonely := first j less
    unfold Lonely at lonely
    omega
  · intro a
    unfold LmbProperty.Holds
    omega

/-- The first half of `lmb_add_region`: the range joins a region, and that one maybe the next. -/
theorem Table.join {k : Nat} (inside : k < rgn.cnt)
    (first : ∀ j < k, Lonely (rgn.region j) range) {joined : LmbProperty}
    (joins : Joins (rgn.region k) range joined) :
    ∃ ret after, (if k < (rgn.set k joined).last ∧
          lmbRegionsAdjacent (rgn.set k joined) k (k + 1) ≠ 0 then
        (lmbCoalesceRegions (rgn.set k joined) k (k + 1)).map fun rgn => ((2 : Int), rgn)
        else some (1, rgn.set k joined)) = some (ret, after) ∧ ret ≠ -1 ∧ Table after ∧
      0 < after.cnt ∧ ∀ a, Covers after a ↔ range.Holds a ∨ Covers rgn a := by
  obtain ⟨whole, before, holds⟩ := table.joined proper disjoint inside first joins
  have last : (rgn.set k joined).last = rgn.cnt - 1 := if_neg (by simp only [LmbRegion.set]; omega)
  rw [last]
  have covered (a : Nat) :
      joined.Holds a ∨ Others rgn k a ↔ range.Holds a ∨ Covers rgn a := by
    rw [covers_iff rgn inside, holds, or_assoc]
  by_cases touches : k + 1 < rgn.cnt ∧ joined.hi = (rgn.region (k + 1)).lo
  · obtain ⟨after, removed, kept, filled, both⟩ :=
      table.coalesce touches.1 whole before touches.2
    have adjacent : lmbRegionsAdjacent (rgn.set k joined) k (k + 1) ≠ 0 := by
      have value := whole.adjacent (table.proper (k + 1) touches.1)
      rw [if_pos touches.2] at value
      simp [lmbRegionsAdjacent, LmbRegion.set, value]
    rw [if_pos ⟨by omega, adjacent⟩, removed]
    exact ⟨2, after, rfl, by decide, kept, filled, fun a => (both a).trans (covered a)⟩
  · have behind : ∀ j < rgn.cnt, k < j → joined.hi < (rgn.region j).lo := by
      intro j below after
      have order := table.behind_joined proper disjoint inside joins below after
      by_contra notBefore
      have same : joined.hi = (rgn.region j).lo := by omega
      have next := order.2 same
      subst next
      exact touches ⟨below, same⟩
    have apart : ¬(k < rgn.cnt - 1 ∧ lmbRegionsAdjacent (rgn.set k joined) k (k + 1) ≠ 0) := by
      rintro ⟨more, adjacent⟩
      have next := table.proper (k + 1) (by omega)
      have value := whole.adjacent next
      have order := behind (k + 1) (by omega) (Nat.lt_succ_self k)
      have nonempty := next.nonempty
      have nonempty' := whole.nonempty
      rw [if_neg (by omega), if_neg (by omega)] at value
      simp [lmbRegionsAdjacent, LmbRegion.set, value] at adjacent
    rw [if_neg apart]
    refine ⟨1, _, rfl, by decide, table.set whole before behind, Nat.zero_lt_of_lt inside, ?_⟩
    intro a
    rw [covers_set inside]
    exact covered a

include filled in
/-- `lmb_add_region` adds the addresses of the range. -/
theorem Table.add :
    ∃ ret after, lmbAddRegion rgn range.base range.size = some (ret, after) ∧
      (ret = -1 ∨ Table after ∧ 0 < after.cnt ∧
        ∀ a, Covers after a ↔ range.Holds a ∨ Covers rgn a) := by
  have notDummy : ¬(rgn.cnt = 1 ∧ (rgn.region 0).size = 0) := by
    rintro ⟨-, empty⟩
    have nonempty := (table.proper 0 filled).nonempty
    unfold LmbProperty.hi LmbProperty.lo at nonempty
    rw [empty, UInt32.toNat_zero] at nonempty
    omega
  have search := table.findNeighbour_spec proper disjoint 0 rgn.cnt (by omega) (by omega)
  rw [lmbAddRegion, if_neg notDummy]
  cases found : findNeighbour rgn.region range.base range.size 0 rgn.cnt with
  | same =>
    rw [found] at search
    exact search.elim
  | joins k joined =>
    rw [found] at search
    obtain ⟨inside, first, joins⟩ := search
    obtain ⟨ret, after, added, -, kept⟩ := table.join proper disjoint inside first joins
    exact ⟨ret, after, added, .inr kept⟩
  | none =>
    rw [found] at search
    have notLess : ¬(rgn.cnt < rgn.last ∧
        lmbRegionsAdjacent rgn rgn.cnt (rgn.cnt + 1) ≠ 0) := by
      rintro ⟨less, -⟩
      rw [LmbRegion.last, if_neg (by omega)] at less
      omega
    simp only [if_neg notLess]
    by_cases room : rgn.cnt < maxLmbRegions
    · obtain ⟨after, inserted, kept, covers⟩ :=
        table.insert filled proper disjoint search room
      refine ⟨0, after, by rw [inserted], .inr ⟨kept, ?_, covers⟩⟩
      obtain ⟨a, inRange⟩ : ∃ a, range.Holds a := ⟨range.lo, Nat.le_refl _, proper.nonempty⟩
      obtain ⟨i, inside, -⟩ := (covers a).mpr (.inl inRange)
      omega
    · exact ⟨-1, rgn, by rw [insertRegion, if_pos (by omega)], .inl rfl⟩

end Add

theorem lmbInit_add (before : Nat → LmbProperty) {range : LmbProperty} (proper : range.Proper) :
    ∃ after, lmbAddRegion (lmbInit before) range.base range.size = some (0, after) ∧ Table after ∧
      0 < after.cnt ∧ ∀ a, Covers after a ↔ range.Holds a := by
  refine ⟨(lmbInit before).set 0 range, ?_, ⟨show 1 ≤ 8 by decide, ?_, ?_⟩, Nat.one_pos, ?_⟩
  · rw [lmbAddRegion, if_pos (by simp [lmbInit])]
    rfl
  · intro i inside
    have zero : i = 0 := Nat.lt_one_iff.mp inside
    rw [zero]
    simpa [LmbRegion.set] using proper
  · intro i j less inside
    have zero : j = 0 := Nat.lt_one_iff.mp inside
    omega
  · intro a
    constructor
    · rintro ⟨i, inside, holds⟩
      have zero : i = 0 := Nat.lt_one_iff.mp inside
      rw [zero] at holds
      simpa [LmbRegion.set] using holds
    · intro holds
      exact ⟨0, Nat.one_pos, by simpa [LmbRegion.set] using holds⟩

/-! ## Freeing a range -/

section Free

variable {rgn : LmbRegion} (table : Table rgn) {range : LmbProperty} (proper : range.Proper)
  (reserved : ∀ a, range.Holds a → Covers rgn a)
include table proper

include reserved in
theorem Table.holder : ∃ k < rgn.cnt, (rgn.region k).lo ≤ range.lo ∧
    range.hi ≤ (rgn.region k).hi := by
  have nonempty := proper.nonempty
  obtain ⟨k, inside, low, high⟩ := reserved range.lo ⟨Nat.le_refl _, nonempty⟩
  refine ⟨k, inside, low, ?_⟩
  by_contra longer
  obtain ⟨j, below, low', high'⟩ := reserved (rgn.region k).hi ⟨by omega, by omega⟩
  have own := (table.proper k inside).nonempty
  have other := (table.proper j below).nonempty
  rcases Nat.lt_trichotomy j k with less | same | greater
  · have gap := table.gap j k less inside
    omega
  · subst same
    omega
  · have gap := table.gap k j greater below
    omega

theorem Table.findHolder_eq {k : Nat} (inside : k < rgn.cnt) (low : (rgn.region k).lo ≤ range.lo)
    (high : range.hi ≤ (rgn.region k).hi) (i turns : Nat) (left : i + turns = rgn.cnt)
    (ahead : i ≤ k) :
    findHolder rgn.region range.base (range.base + range.size) i turns = some k := by
  induction turns generalizing i with
  | zero => omega
  | succ turns ih =>
    have own := table.proper i (by omega)
    rw [findHolder]
    simp only [UInt32.le_iff_toNat_le, proper.toNat_end, own.toNat_end]
    by_cases here : i = k
    · subst here
      rw [if_pos ⟨low, high⟩]
    · have gap := table.gap i k (by omega) inside
      have nonempty := proper.nonempty
      have miss : ¬((rgn.region i).base.toNat ≤ range.base.toNat ∧
          range.hi ≤ (rgn.region i).hi) := by
        rintro ⟨-, short⟩
        omega
      rw [if_neg miss]
      exact ih (i + 1) (by omega) (by omega)

omit proper in
theorem Table.trim {k : Nat} (inside : k < rgn.cnt) {part : LmbProperty} (proper : part.Proper)
    (low : (rgn.region k).lo ≤ part.lo) (high : part.hi ≤ (rgn.region k).hi) :
    Table (rgn.set k part) := by
  apply table.set proper
  · intro j less
    have gap := table.gap j k less inside
    omega
  · intro j below after
    have gap := table.gap k j after below
    omega

omit proper in
theorem Table.covers_without {k : Nat} (inside : k < rgn.cnt) (low : (rgn.region k).lo ≤ range.lo)
    (high : range.hi ≤ (rgn.region k).hi) (a : Nat) :
    Covers rgn a ∧ ¬range.Holds a ↔
      ((rgn.region k).Holds a ∧ ¬range.Holds a) ∨ Others rgn k a := by
  rw [covers_iff rgn inside]
  constructor
  · rintro ⟨holds | other, free⟩
    · exact .inl ⟨holds, free⟩
    · exact .inr other
  · rintro (⟨holds, free⟩ | other)
    · exact ⟨.inl holds, free⟩
    · refine ⟨.inr other, ?_⟩
      rintro ⟨low', high'⟩
      exact table.others inside other ⟨by omega, by omega⟩

omit proper in
theorem Table.trim_free {k : Nat} (inside : k < rgn.cnt) (low : (rgn.region k).lo ≤ range.lo)
    (high : range.hi ≤ (rgn.region k).hi) (nonempty : range.lo < range.hi)
    {part : LmbProperty} (properPart : part.Proper)
    (rest : part.lo = range.hi ∧ part.hi = (rgn.region k).hi ∧ (rgn.region k).lo = range.lo ∨
      part.lo = (rgn.region k).lo ∧ part.hi = range.lo ∧ (rgn.region k).hi = range.hi) :
    Table (rgn.set k part) ∧
      ∀ a, Covers (rgn.set k part) a ↔ Covers rgn a ∧ ¬range.Holds a := by
  have trimmed : Table (rgn.set k part) := by
    rcases rest with ⟨front, back, -⟩ | ⟨front, back, -⟩
    · exact table.trim inside properPart (by omega) (by omega)
    · exact table.trim inside properPart (by omega) (by omega)
  refine ⟨trimmed, fun a => ?_⟩
  rw [covers_set inside, table.covers_without inside low high]
  apply or_congr_left
  unfold LmbProperty.Holds
  omega

omit proper in
theorem Table.split_free {k : Nat} (inside : k < rgn.cnt) (low : (rgn.region k).lo ≤ range.lo)
    (high : range.hi ≤ (rgn.region k).hi) (nonempty : range.lo < range.hi)
    {first second : LmbProperty} (properFirst : first.Proper) (properSecond : second.Proper)
    (front : first.lo = (rgn.region k).lo ∧ first.hi = range.lo)
    (back : second.lo = range.hi ∧ second.hi = (rgn.region k).hi) :
    ∃ ret after, lmbAddRegion (rgn.set k first) second.base second.size = some (ret, after) ∧
      (ret = -1 ∨ Table after ∧ ∀ a, Covers after a ↔ Covers rgn a ∧ ¬range.Holds a) := by
  have trimmed := table.trim inside properFirst (by omega) (by omega)
  have disjoint : ∀ a, second.Holds a → ¬Covers (rgn.set k first) a := by
    intro a holds covered
    unfold LmbProperty.Holds at holds
    rcases (covers_set inside first a).mp covered with inFirst | other
    · unfold LmbProperty.Holds at inFirst
      omega
    · exact table.others inside other ⟨by omega, by omega⟩
  obtain ⟨ret, after, added, outcome⟩ :=
    trimmed.add (Nat.zero_lt_of_lt inside) properSecond disjoint
  refine ⟨ret, after, added, outcome.imp_right ?_⟩
  rintro ⟨kept, -, covers⟩
  refine ⟨kept, fun a => ?_⟩
  rw [covers, covers_set inside, table.covers_without inside low high, ← or_assoc]
  apply or_congr_left
  unfold LmbProperty.Holds
  omega

include reserved in
/-- `lmb_free` removes the addresses of the range. -/
theorem Table.free :
    ∃ ret after, lmbFree rgn range.base range.size = some (ret, after) ∧
      (ret = -1 ∨ Table after ∧ ∀ a, Covers after a ↔ Covers rgn a ∧ ¬range.Holds a) := by
  obtain ⟨k, inside, low, high⟩ := table.holder proper reserved
  have found := table.findHolder_eq proper inside low high 0 rgn.cnt (by omega) (by omega)
  have own := table.proper k inside
  have nonempty := proper.nonempty
  have noWrap := own.noWrap
  have sizes : range.lo + range.size.toNat = range.hi ∧
      (rgn.region k).lo + (rgn.region k).size.toNat = (rgn.region k).hi := ⟨rfl, rfl⟩
  have left : ((rgn.region k).size - range.size).toNat =
      (rgn.region k).size.toNat - range.size.toNat := by
    apply UInt32.toNat_sub_of_le
    rw [UInt32.le_iff_toNat_le]
    omega
  have start : (rgn.region k).base = range.base ↔ (rgn.region k).lo = range.lo :=
    UInt32.toNat_inj.symm
  have finish : (rgn.region k).base + (rgn.region k).size = range.base + range.size ↔
      (rgn.region k).hi = range.hi := by
    rw [← UInt32.toNat_inj, own.toNat_end, proper.toNat_end]
  simp only [lmbFree, found, start, finish]
  by_cases front : (rgn.region k).lo = range.lo
  · by_cases back : (rgn.region k).hi = range.hi
    · rw [if_pos ⟨front, back⟩, lmbRemoveRegion_eq inside]
      refine ⟨0, _, rfl, .inr ⟨table.erase inside, fun a => ?_⟩⟩
      rw [covers_erase inside, table.covers_without inside low high, or_iff_right]
      rintro ⟨⟨low', high'⟩, free⟩
      exact free ⟨by omega, by omega⟩
    · rw [if_neg (by tauto), if_pos front]
      let part : LmbProperty := ⟨range.base + range.size, (rgn.region k).size - range.size⟩
      have partLo : part.lo = range.hi := proper.toNat_end
      have partHi : part.hi = (rgn.region k).hi := by
        change (range.base + range.size).toNat + ((rgn.region k).size - range.size).toNat = _
        rw [proper.toNat_end, left]
        omega
      have properPart : part.Proper := ⟨by omega, by omega⟩
      exact ⟨0, rgn.set k part, rfl, .inr
        (table.trim_free inside low high nonempty properPart (.inl ⟨partLo, partHi, front⟩))⟩
  · rw [if_neg (by tauto), if_neg front]
    by_cases back : (rgn.region k).hi = range.hi
    · rw [if_pos back]
      let part : LmbProperty := ⟨(rgn.region k).base, (rgn.region k).size - range.size⟩
      have partLo : part.lo = (rgn.region k).lo := rfl
      have partHi : part.hi = range.lo := by
        change (rgn.region k).lo + ((rgn.region k).size - range.size).toNat = _
        omega
      have properPart : part.Proper := ⟨by omega, by omega⟩
      exact ⟨0, rgn.set k part, rfl, .inr
        (table.trim_free inside low high nonempty properPart (.inr ⟨partLo, partHi, back⟩))⟩
    · rw [if_neg back]
      let first : LmbProperty := ⟨(rgn.region k).base, range.base - (rgn.region k).base⟩
      let second : LmbProperty := ⟨range.base + range.size,
        (rgn.region k).base + (rgn.region k).size - (range.base + range.size)⟩
      have firstLo : first.lo = (rgn.region k).lo := rfl
      have firstHi : first.hi = range.lo := by
        have difference : (range.base - (rgn.region k).base).toNat =
            range.lo - (rgn.region k).lo :=
          UInt32.toNat_sub_of_le _ _ (UInt32.le_iff_toNat_le.mpr low)
        change (rgn.region k).lo + (range.base - (rgn.region k).base).toNat = _
        omega
      have secondLo : second.lo = range.hi := proper.toNat_end
      have secondHi : second.hi = (rgn.region k).hi := by
        have order : range.base + range.size ≤ (rgn.region k).base + (rgn.region k).size := by
          rw [UInt32.le_iff_toNat_le, proper.toNat_end, own.toNat_end]
          exact high
        have difference := UInt32.toNat_sub_of_le _ _ order
        rw [proper.toNat_end, own.toNat_end] at difference
        change (range.base + range.size).toNat +
          ((rgn.region k).base + (rgn.region k).size - (range.base + range.size)).toNat = _
        rw [proper.toNat_end]
        omega
      have properFirst : first.Proper := ⟨by omega, by omega⟩
      have properSecond : second.Proper := ⟨by omega, by omega⟩
      exact table.split_free inside low high nonempty properFirst properSecond
        ⟨firstLo, firstHi⟩ ⟨secondLo, secondHi⟩

end Free

/-! ## Runs -/

/-- The addresses that the calls reserved and did not free, the last call first. -/
def ReservedBy : List Call → Nat → Prop
  | [], _ => False
  | .reserve base size :: earlier, a => LmbProperty.Holds ⟨base, size⟩ a ∨ ReservedBy earlier a
  | .free base size :: earlier, a => ReservedBy earlier a ∧ ¬LmbProperty.Holds ⟨base, size⟩ a

/-- The calls use the table as it is meant: ranges do not wrap, what is reserved is not reserved
yet, and what is freed is reserved. -/
def Valid : List Call → Prop
  | [] => True
  | .reserve base size :: earlier => Valid earlier ∧ base.toNat + size.toNat < 2 ^ 32 ∧
      ∀ a, LmbProperty.Holds ⟨base, size⟩ a → ¬ReservedBy earlier a
  | .free base size :: earlier => Valid earlier ∧ base.toNat + size.toNat < 2 ^ 32 ∧
      ∀ a, LmbProperty.Holds ⟨base, size⟩ a → ReservedBy earlier a

/-- No range is empty, and after the first call nothing is reserved while nothing is reserved. -/
def NeverEmptied : List Call → Prop
  | [] => True
  | .reserve _ size :: earlier =>
      NeverEmptied earlier ∧ size ≠ 0 ∧ (earlier = [] ∨ ∃ a, ReservedBy earlier a)
  | .free _ size :: earlier => NeverEmptied earlier ∧ size ≠ 0

/-- What is to hold after a run: the table is sorted, with gaps, and `lmb_is_reserved` knows the
reserved addresses. -/
structure Faithful (calls : List Call) (rgn : LmbRegion) : Prop where
  table : Table rgn
  reserved : ∀ a : UInt32, lmbIsReserved rgn a = true ↔ ReservedBy calls a.toNat

theorem proper_of_size {base size : UInt32} (noWrap : base.toNat + size.toNat < 2 ^ 32)
    (nonempty : size ≠ 0) : LmbProperty.Proper ⟨base, size⟩ where
  nonempty := by
    have positive : size.toNat ≠ 0 := fun zero => nonempty (UInt32.toNat.inj zero)
    unfold LmbProperty.lo LmbProperty.hi
    simp only
    omega
  noWrap := noWrap

theorem lmbRun_step {before : Nat → LmbProperty} {call : Call} {earlier : List Call}
    {rgn after : LmbRegion} {ret : Int} (run : lmbRun before earlier = .done rgn)
    (step : call.run rgn = some (ret, after))
    (noFailure : lmbRun before (call :: earlier) ≠ .failed) :
    ret ≠ -1 ∧ lmbRun before (call :: earlier) = .done after := by
  have outcome : lmbRun before (call :: earlier) = if ret = -1 then .failed else .done after := by
    rw [lmbRun, run]
    simp only [step]
  rw [outcome] at noFailure ⊢
  by_cases failed : ret = -1
  · rw [if_pos failed] at noFailure
    exact absurd rfl noFailure
  · rw [if_neg failed]
    exact ⟨failed, rfl⟩

/-- The invariant of a run: after the first call the table covers what is reserved. -/
theorem lmbRun_covers (before : Nat → LmbProperty) (call : Call) (earlier : List Call)
    (valid : Valid (call :: earlier)) (never : NeverEmptied (call :: earlier))
    (noFailure : lmbRun before (call :: earlier) ≠ .failed) :
    ∃ rgn, lmbRun before (call :: earlier) = .done rgn ∧ Table rgn ∧
      ∀ a, Covers rgn a ↔ ReservedBy (call :: earlier) a := by
  induction earlier generalizing call with
  | nil =>
    cases call with
    | reserve base size =>
      have proper := proper_of_size valid.2.1 never.2.1
      obtain ⟨after, added, table, -, covers⟩ := lmbInit_add before proper
      have step : (Call.reserve base size).run (lmbInit before) = some (0, after) := added
      refine ⟨after, (lmbRun_step rfl step noFailure).2, table, ?_⟩
      intro a
      rw [covers, ReservedBy, ReservedBy, or_false]
    | free base size =>
      have proper := proper_of_size valid.2.1 never.2
      exact (valid.2.2 base.toNat ⟨Nat.le_refl _, proper.nonempty⟩).elim
  | cons previous earlier ih =>
    have noFailure' : lmbRun before (previous :: earlier) ≠ .failed := by
      intro failed
      apply noFailure
      rw [lmbRun, failed]
    cases call with
    | reserve base size =>
      obtain ⟨rgn, run, table, covers⟩ := ih previous valid.1 never.1 noFailure'
      have proper := proper_of_size valid.2.1 never.2.1
      obtain ⟨a, reserved⟩ := never.2.2.resolve_left (List.cons_ne_nil _ _)
      obtain ⟨i, inside, -⟩ := (covers a).mpr reserved
      obtain ⟨ret, after, added, outcome⟩ := table.add (by omega) proper
        (fun a holds covered => valid.2.2 a holds ((covers a).mp covered))
      have step : (Call.reserve base size).run rgn = some (ret, after) := added
      obtain ⟨succeeded, done⟩ := lmbRun_step run step noFailure
      obtain ⟨kept, -, union⟩ := outcome.resolve_left succeeded
      refine ⟨after, done, kept, ?_⟩
      intro a
      rw [union, covers, ReservedBy]
    | free base size =>
      obtain ⟨rgn, run, table, covers⟩ := ih previous valid.1 never.1 noFailure'
      have proper := proper_of_size valid.2.1 never.2
      obtain ⟨ret, after, freed, outcome⟩ := table.free proper
        (fun a holds => (covers a).mpr (valid.2.2 a holds))
      have step : (Call.free base size).run rgn = some (ret, after) := freed
      obtain ⟨succeeded, done⟩ := lmbRun_step run step noFailure
      obtain ⟨kept, difference⟩ := outcome.resolve_left succeeded
      refine ⟨after, done, kept, ?_⟩
      intro a
      rw [difference, covers, ReservedBy]

/-- After every run of at least one call, in which no call returns −1, no range is empty and nothing
is reserved once all is freed, the table is faithful. -/
theorem lmbRun_faithful (before : Nat → LmbProperty) (calls : List Call) (some : calls ≠ [])
    (valid : Valid calls) (noFailure : lmbRun before calls ≠ .failed)
    (never : NeverEmptied calls) : ∃ rgn, lmbRun before calls = .done rgn ∧ Faithful calls rgn := by
  obtain ⟨call, earlier, rfl⟩ := List.exists_cons_of_ne_nil some
  obtain ⟨rgn, run, table, covers⟩ := lmbRun_covers before call earlier valid never noFailure
  refine ⟨rgn, run, table, ?_⟩
  intro a
  rw [table.isReserved, covers]

/-- Two ranges are reserved, the gap between them is reserved too, and a part of the middle is
freed. -/
theorem lmbRun_faithful_split :
    ∃ rgn, lmbRun (fun _ => ⟨0, 0⟩) [.free 0x2800 0x100, .reserve 0x2000 0x1000,
        .reserve 0x3000 0x1000, .reserve 0x1000 0x1000] = .done rgn ∧
      Faithful [.free 0x2800 0x100, .reserve 0x2000 0x1000, .reserve 0x3000 0x1000,
        .reserve 0x1000 0x1000] rgn := by
  apply lmbRun_faithful
  · decide
  · simp only [Valid, ReservedBy, LmbProperty.Holds, LmbProperty.lo, LmbProperty.hi,
      UInt32.reduceToNat]
    refine ⟨⟨⟨⟨trivial, ?_, ?_⟩, ?_, ?_⟩, ?_, ?_⟩, ?_, ?_⟩ <;> grind
  · intro failed
    cases failed
  · simp only [NeverEmptied, ReservedBy, LmbProperty.Holds, LmbProperty.lo, LmbProperty.hi,
      UInt32.reduceToNat]
    refine ⟨⟨⟨⟨trivial, by decide, .inl trivial⟩, by decide, .inr ⟨0x1000, ?_⟩⟩, by decide,
      .inr ⟨0x1000, ?_⟩⟩, by decide⟩ <;> omega

/-- A range that is reserved in an empty table is lost, and the one that was freed comes back. -/
theorem lmbRun_unfaithful :
    ¬∀ (before : Nat → LmbProperty) (calls : List Call), Valid calls →
      lmbRun before calls ≠ .failed →
      ∃ rgn, lmbRun before calls = .done rgn ∧ Faithful calls rgn := by
  intro claim
  let calls : List Call := [.reserve 0x5000 0x1000, .free 0x1000 0x1000, .reserve 0x1000 0x1000]
  have valid : Valid calls := by
    simp only [calls, Valid, ReservedBy, LmbProperty.Holds, LmbProperty.lo, LmbProperty.hi,
      UInt32.reduceToNat]
    refine ⟨⟨⟨trivial, ?_, ?_⟩, ?_, ?_⟩, ?_, ?_⟩ <;> grind
  obtain ⟨rgn, run, faithful⟩ := claim (fun _ => ⟨0, 0⟩) calls valid (fun failed => by cases failed)
  have lost : lmbIsReserved rgn 0x5000 = false := by
    cases run
    decide
  have reserved : ReservedBy calls 0x5000 := by
    simp only [calls, ReservedBy, LmbProperty.Holds, LmbProperty.lo, LmbProperty.hi,
      UInt32.reduceToNat]
    omega
  rw [(faithful.reserved 0x5000).mpr reserved] at lost
  cases lost

end HrppBoot.Lmb
