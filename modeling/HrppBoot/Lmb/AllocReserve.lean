import HrppBoot.Lmb.Alloc

/-!
# What an allocation reserves

`__lmb_alloc_base` reserves the range that it found, rounded up to the alignment. The end of that
range and the ends of the entries that it joins are computed modulo the address space, so a range at
its top can join an entry at 0, and an entry that the sizes of three ranges add up to can lose its
addresses. An empty table takes its old entry back instead of the range. `Lasting` says where none
of this happens.
-/

namespace HrppBoot.Lmb

/-! ## Entries -/

/-- An entry has the addresses of a range, or it is the one that has all for `lmb_is_reserved`. -/
def Spans (entry : LmbProperty) (base size : Nat) : Prop :=
  entry.lo ≤ base ∧ base + size ≤ entry.hi ∧ entry.hi ≤ 2 ^ 32 ∨ entry = ⟨0, 0⟩

theorem Spans.isReserved {rgn : LmbRegion} {k base size : Nat} (inside : k < rgn.cnt)
    (spans : Spans (rgn.region k) base size) {a : UInt32} (low : base ≤ a.toNat)
    (high : a.toNat < base + size) : lmbIsReserved rgn a = true := by
  unfold lmbIsReserved
  rw [List.any_eq_true]
  refine ⟨k, List.mem_range.mpr inside, ?_⟩
  rw [decide_eq_true_eq, UInt32.le_iff_toNat_le, UInt32.le_iff_toNat_le]
  rcases spans with ⟨start, stop, noWrap⟩ | all
  · have upper : ((rgn.region k).base + (rgn.region k).size - 1).toNat =
        (rgn.region k).hi - 1 := by
      rw [UInt32.toNat_sub, UInt32.toNat_add, UInt32.toNat_one]
      unfold LmbProperty.hi at *
      omega
    rw [upper]
    unfold LmbProperty.lo at start
    omega
  · have bound := a.toNat_lt
    have upper : ((0 : UInt32) + 0 - 1).toNat = 4294967295 := rfl
    rw [all]
    dsimp only
    rw [upper, UInt32.toNat_zero]
    omega

/-- What the first loop of `lmb_add_region` joins. -/
theorem findNeighbour_joins {region : Nat → LmbProperty} {base size : UInt32} {i turns : Nat} :
    match findNeighbour region base size i turns with
    | .same => ∃ j, i ≤ j ∧ j < i + turns ∧ region j = ⟨base, size⟩
    | .joins j joined => i ≤ j ∧ j < i + turns ∧
        ((region j).base = base + size ∧
            joined = ⟨(region j).base - size, (region j).size + size⟩ ∨
          (region j).base ≠ base + size ∧ base = (region j).base + (region j).size ∧
            joined = ⟨(region j).base, (region j).size + size⟩)
    | .none => True := by
  induction turns generalizing i with
  | zero => trivial
  | succ turns ih =>
    rw [findNeighbour]
    by_cases same : (region i).base = base ∧ (region i).size = size
    · rw [if_pos same]
      refine ⟨i, Nat.le_refl _, by omega, ?_⟩
      rw [← same.1, ← same.2]
    · rw [if_neg same]
      by_cases behind : (region i).base = base + size
      · have adjacent : lmbAddrsAdjacent base size (region i).base (region i).size = 1 := by
          rw [lmbAddrsAdjacent, if_pos behind]
        simp only [adjacent, if_pos (show (0 : Int) < 1 by decide)]
        exact ⟨Nat.le_refl _, by omega, .inl ⟨behind, trivial⟩⟩
      · by_cases before : base = (region i).base + (region i).size
        · have adjacent : lmbAddrsAdjacent base size (region i).base (region i).size = -1 := by
            rw [lmbAddrsAdjacent, if_neg behind, if_pos before]
          simp only [adjacent, if_neg (show ¬(0 : Int) < -1 by decide),
            if_pos (show (-1 : Int) < 0 by decide)]
          exact ⟨Nat.le_refl _, by omega, .inr ⟨behind, before, trivial⟩⟩
        · have adjacent : lmbAddrsAdjacent base size (region i).base (region i).size = 0 := by
            rw [lmbAddrsAdjacent, if_neg behind, if_neg before]
          simp only [adjacent, if_neg (show ¬(0 : Int) < 0 by decide)]
          have rest := @ih (i + 1)
          generalize findNeighbour region base size (i + 1) turns = result at rest ⊢
          cases result with
          | same =>
            obtain ⟨j, low, high, found⟩ := rest
            exact ⟨j, by omega, by omega, found⟩
          | joins j joined =>
            obtain ⟨low, high, found⟩ := rest
            exact ⟨by omega, by omega, found⟩
          | none => trivial

theorem insertRegion_entry {rgn : LmbRegion} {base size : UInt32} (some : rgn.cnt ≠ 0)
    (room : rgn.cnt < maxLmbRegions) :
    ∃ after, insertRegion rgn base size = (0, after) ∧
      ∃ k < after.cnt, after.region k = ⟨base, size⟩ := by
  rw [insertRegion, if_neg (by omega)]
  refine ⟨_, rfl, ?_⟩
  obtain ⟨k, bound, behind, before, shape⟩ := moveUp_spec rgn.region base size rgn.cnt
  by_cases first : k = 0
  · subst first
    have less := behind 0 (by omega) (Nat.le_refl _)
    have start : moveUp rgn.region base size rgn.cnt 0 = rgn.region 0 := by
      rw [shape, if_neg (by omega), if_pos rfl, if_pos rfl]
    refine ⟨0, Nat.succ_pos _, ?_⟩
    dsimp only
    rw [start, if_pos less, Function.update_self]
  · have here : moveUp rgn.region base size rgn.cnt k = ⟨base, size⟩ := by
      rw [shape, if_neg (by omega), if_pos rfl, if_neg first]
    refine ⟨k, Nat.lt_succ_of_le bound, ?_⟩
    dsimp only
    split
    · rw [Function.update_of_ne first, here]
    · exact here

theorem set_self (rgn : LmbRegion) (i : Nat) (entry : LmbProperty) :
    (rgn.set i entry).region i = entry := Function.update_self ..

variable {j : Nat}

theorem set_other (rgn : LmbRegion) {i : Nat} (different : j ≠ i) (entry : LmbProperty) :
    (rgn.set i entry).region j = rgn.region j := Function.update_of_ne different ..

theorem lmbCoalesceRegions_entry {rgn : LmbRegion} (inside : j + 1 < rgn.cnt) (joined : LmbProperty)
    :
    ∃ after, lmbCoalesceRegions (rgn.set j joined) j (j + 1) = some after ∧ j < after.cnt ∧
      after.region j = ⟨joined.base, joined.size + (rgn.region (j + 1)).size⟩ ∧
      ∀ k < after.cnt, k ≠ j → ∃ i < rgn.cnt, after.region k = rgn.region i := by
  let twice := (rgn.set j joined).set j ⟨joined.base, joined.size + (rgn.region (j + 1)).size⟩
  have below : j < twice.cnt - 1 := show j < rgn.cnt - 1 by omega
  have other : ∀ k, k ≠ j → twice.region k = rgn.region k := fun k different =>
    (set_other _ different _).trans (set_other _ different _)
  refine ⟨twice.erase (j + 1), ?_, below, ?_, ?_⟩
  · rw [lmbCoalesceRegions, set_self, set_other rgn (by omega)]
    exact lmbRemoveRegion_eq inside
  · rw [@erase_region twice (j + 1) inside j below, if_pos (by omega)]
    exact set_self ..
  · intro k less different
    have left : k < rgn.cnt - 1 := less
    rw [@erase_region twice (j + 1) inside k less]
    by_cases before : k < j + 1
    · rw [if_pos before]
      exact ⟨k, by omega, other k different⟩
    · rw [if_neg before]
      exact ⟨k + 1, by omega, other (k + 1) (by omega)⟩

theorem lmbAddRegion_empty {rgn : LmbRegion} (base size : UInt32) (none : rgn.cnt = 0) :
    lmbAddRegion rgn base size =
      if lmbRegionsAdjacent rgn 0 1 ≠ 0 then .none
      else some (0, ⟨1, if base < (rgn.region 0).base then
        Function.update rgn.region 0 ⟨base, size⟩ else rgn.region⟩) := by
  have last : rgn.cnt < rgn.last := by
    rw [LmbRegion.last, if_pos none, none]
    decide
  have search : findNeighbour rgn.region base size 0 rgn.cnt = .none := by
    rw [none]
    rfl
  rw [lmbAddRegion, if_neg (by omega), search]
  dsimp only
  by_cases touch : lmbRegionsAdjacent rgn 0 1 ≠ 0
  · have off : lmbCoalesceRegions rgn 0 1 = .none := by
      rw [lmbCoalesceRegions, lmbRemoveRegion, if_pos none]
    rw [none] at last ⊢
    rw [if_pos ⟨last, touch⟩, if_pos touch, off, Option.map_none]
  · rw [none, if_neg fun both => touch both.2, if_neg touch, insertRegion, none,
      if_neg (by decide), moveUp]

theorem lmbAddRegion_filled {rgn : LmbRegion} (base size : UInt32) (some : rgn.cnt ≠ 0)
    (many : ¬(rgn.cnt = 1 ∧ (rgn.region 0).size = 0)) :
    lmbAddRegion rgn base size =
      match findNeighbour rgn.region base size 0 rgn.cnt with
      | .same => .some (0, rgn)
      | .joins i joined =>
        if i + 1 < rgn.cnt ∧ lmbRegionsAdjacent (rgn.set i joined) i (i + 1) ≠ 0 then
          (lmbCoalesceRegions (rgn.set i joined) i (i + 1)).map fun rgn => (2, rgn)
        else .some (1, rgn.set i joined)
      | .none => .some (insertRegion rgn base size) := by
  have last : rgn.last = rgn.cnt - 1 := if_neg some
  have before : ∀ i, i < rgn.cnt - 1 ↔ i + 1 < rgn.cnt := by omega
  rw [lmbAddRegion, if_neg many]
  cases search : findNeighbour rgn.region base size 0 rgn.cnt with
  | same => rfl
  | joins i joined =>
    have last' : (rgn.set i joined).last = rgn.cnt - 1 := last
    dsimp only
    change (if i < (rgn.set i joined).last ∧ lmbRegionsAdjacent (rgn.set i joined) i (i + 1) ≠ 0
      then _ else _) = _
    simp only [last', before]
    rfl
  | none =>
    dsimp only
    rw [last, if_neg (by omega)]

/-- The table can take a range: it has room for it, or an entry to join. An empty one does not run
off its end. -/
def Takes (rgn : LmbRegion) (base size : UInt32) : Prop :=
  (rgn.cnt = 0 → lmbRegionsAdjacent rgn 0 1 = 0) ∧
    (rgn.cnt < maxLmbRegions ∨ findNeighbour rgn.region base size 0 rgn.cnt ≠ .none)

/-- `lmb_add_region` succeeds where the table can take the range. -/
theorem takes_iff (rgn : LmbRegion) (base size : UInt32) :
    Takes rgn base size ↔
      ∃ ret after, lmbAddRegion rgn base size = some (ret, after) ∧ ¬ret < 0 := by
  by_cases none : rgn.cnt = 0
  · rw [lmbAddRegion_empty base size none]
    by_cases touch : lmbRegionsAdjacent rgn 0 1 = 0
    · rw [if_neg (by rw [touch]; decide)]
      exact iff_of_true ⟨fun _ => touch, .inl (by rw [none]; decide)⟩ ⟨0, _, rfl, by decide⟩
    · rw [if_pos touch]
      refine iff_of_false (fun takes => touch (takes.1 none)) ?_
      rintro ⟨ret, after, added, -⟩
      cases added
  have room : ∀ ret after, insertRegion rgn base size = (ret, after) →
      (¬ret < 0 ↔ rgn.cnt < maxLmbRegions) := by
    intro ret after inserted
    rw [insertRegion] at inserted
    by_cases full : maxLmbRegions ≤ rgn.cnt
    · rw [if_pos full, Prod.mk.injEq] at inserted
      rw [← inserted.1]
      exact iff_of_false (by decide) (by omega)
    · rw [if_neg full, Prod.mk.injEq] at inserted
      rw [← inserted.1]
      exact iff_of_true (by decide) (by omega)
  by_cases dummy : rgn.cnt = 1 ∧ (rgn.region 0).size = 0
  · rw [lmbAddRegion, if_pos dummy]
    exact iff_of_true ⟨fun zero => absurd zero none, .inl (by rw [dummy.1]; decide)⟩
      ⟨0, _, rfl, by decide⟩
  · rw [lmbAddRegion_filled base size none dummy, Takes]
    have joined := @findNeighbour_joins rgn.region base size 0 rgn.cnt
    cases search : findNeighbour rgn.region base size 0 rgn.cnt with
    | same =>
      exact iff_of_true ⟨fun zero => absurd zero none, .inr (by decide)⟩ ⟨0, _, rfl, by decide⟩
    | joins j entry =>
      refine iff_of_true ⟨fun zero => absurd zero none, .inr (fun same => by cases same)⟩ ?_
      dsimp only
      split
      · rename_i more
        obtain ⟨after, coalesced, -⟩ := lmbCoalesceRegions_entry more.1 entry
        rw [coalesced]
        exact ⟨2, after, rfl, by decide⟩
      · exact ⟨1, _, rfl, by decide⟩
    | none =>
      obtain ⟨ret, after, inserted⟩ : ∃ ret after, insertRegion rgn base size = (ret, after) :=
        ⟨_, _, rfl⟩
      dsimp only
      rw [inserted]
      constructor
      · rintro ⟨-, small | joins⟩
        · exact ⟨ret, after, rfl, (room ret after inserted).mpr small⟩
        · exact absurd rfl joins
      · rintro ⟨_, _, same, positive⟩
        cases same
        exact ⟨fun zero => absurd zero none, .inl ((room ret after inserted).mp positive)⟩

/-! ## The entry of a range -/

theorem adjacent_meets {rgn : LmbRegion} {joined : LmbProperty}
    (adjacent : lmbRegionsAdjacent (rgn.set j joined) j (j + 1) ≠ 0) :
    (rgn.region (j + 1)).lo = (joined.base.toNat + joined.size.toNat) % 2 ^ 32 ∨
      joined.base.toNat = (rgn.region (j + 1)).hi % 2 ^ 32 := by
  rw [lmbRegionsAdjacent, set_self, set_other rgn (by omega), lmbAddrsAdjacent] at adjacent
  by_cases behind : (rgn.region (j + 1)).base = joined.base + joined.size
  · left
    have value := congrArg UInt32.toNat behind
    rw [UInt32.toNat_add] at value
    exact value
  · rw [if_neg behind] at adjacent
    by_cases before : joined.base = (rgn.region (j + 1)).base + (rgn.region (j + 1)).size
    · right
      have value := congrArg UInt32.toNat before
      rw [UInt32.toNat_add] at value
      exact value
    · exact absurd (if_neg before) adjacent

theorem Sorted.nonempty {rgn : LmbRegion} (sorted : Sorted rgn)
    (many : ¬(rgn.cnt = 1 ∧ (rgn.region 0).size = 0)) {i : Nat} (member : i < rgn.cnt) :
    (rgn.region i).lo < (rgn.region i).hi := by
  rcases sorted.solid i member with nonempty | ⟨one, dummy⟩
  · exact nonempty
  · refine absurd ⟨one, ?_⟩ many
    rw [show (0 : Nat) = i by omega, dummy]

section Add

variable {rgn : LmbRegion} (sorted : Sorted rgn) {base size : UInt32} (nonzero : base ≠ 0)
  (positive : 0 < size.toNat) (top : base.toNat + size.toNat ≤ 2 ^ 32)
include sorted nonzero positive top

/-- The range has its addresses in the entry that joined it, and in the one that this one and the
next make. -/
def Keeps (rgn : LmbRegion) (base size : UInt32) (j : Nat) (joined : LmbProperty) : Prop :=
  Spans joined base.toNat size.toNat ∧
    (j + 1 < rgn.cnt → lmbRegionsAdjacent (rgn.set j joined) j (j + 1) ≠ 0 →
      Spans ⟨joined.base, joined.size + (rgn.region (j + 1)).size⟩ base.toNat size.toNat)

section Join

variable {j : Nat} {joined : LmbProperty} (inside : j < rgn.cnt)
  (many : ¬(rgn.cnt = 1 ∧ (rgn.region 0).size = 0))
  (bottom : base.toNat + size.toNat = 2 ^ 32 →
    ∀ i < rgn.cnt, (rgn.region i).lo = 0 → (rgn.region i).hi = 0)
include inside many bottom

/-- The entry behind the range keeps its addresses when it joins it. -/
theorem joinsBehind_spans (behind : (rgn.region j).base = base + size)
    (joins : joined = ⟨(rgn.region j).base - size, (rgn.region j).size + size⟩) :
    Keeps rgn base size j joined := by
  have start : base.toNat ≠ 0 := fun zero => nonzero (UInt32.toNat_inj.mp zero)
  have noWrap := sorted.noWrap j inside
  have nonempty := sorted.nonempty many inside
  have own : (rgn.region j).hi = (rgn.region j).lo + (rgn.region j).size.toNat := rfl
  have shape : (rgn.region (j + 1)).hi =
      (rgn.region (j + 1)).lo + (rgn.region (j + 1)).size.toNat := rfl
  have value : (rgn.region j).lo = (base.toNat + size.toNat) % 2 ^ 32 :=
    (congrArg UInt32.toNat behind).trans (UInt32.toNat_add ..)
  have inner : base.toNat + size.toNat < 2 ^ 32 := by
    by_contra reach
    have whole : base.toNat + size.toNat = 2 ^ 32 := by omega
    have zero := bottom whole j inside (by omega)
    omega
  rw [Nat.mod_eq_of_lt inner] at value
  have low : ((rgn.region j).base - size).toNat = base.toNat := by
    rw [UInt32.toNat_sub]
    unfold LmbProperty.lo at value
    omega
  have length : ((rgn.region j).size + size).toNat = (rgn.region j).hi - base.toNat := by
    rw [UInt32.toNat_add]
    omega
  have both : ((rgn.region j).size + size + (rgn.region (j + 1)).size).toNat =
      ((rgn.region j).hi - base.toNat + (rgn.region (j + 1)).size.toNat) % 2 ^ 32 := by
    rw [UInt32.toNat_add, length]
  subst joins
  refine ⟨.inl ⟨low.le, ?_, ?_⟩, fun more touch => ?_⟩
  · simp only [LmbProperty.hi, low, length] at *
    omega
  · simp only [LmbProperty.hi, low, length] at *
    omega
  · have order := sorted.ordered j (j + 1) (by omega) more
    have nonempty' := sorted.nonempty many more
    have noWrap' := sorted.noWrap (j + 1) more
    rcases adjacent_meets touch with after | wraps
    · dsimp only at after
      rw [low, length] at after
      have met : (rgn.region (j + 1)).lo = (rgn.region j).hi := by omega
      refine .inl ⟨low.le, ?_, ?_⟩
      · rw [LmbProperty.hi, both, low]
        omega
      · rw [LmbProperty.hi, both, low]
        omega
    · dsimp only at wraps
      rw [low] at wraps
      omega

variable (gap : rgn.cnt = 2 → (rgn.region 0).lo = 0 → (rgn.region 1).hi = 2 ^ 32 →
  (rgn.region 0).hi = base.toNat → base.toNat + size.toNat ≤ (rgn.region 1).lo)
include gap

/-- The entry before the range keeps its addresses when it joins it. -/
theorem joinsBefore_spans (before : base = (rgn.region j).base + (rgn.region j).size)
    (joins : joined = ⟨(rgn.region j).base, (rgn.region j).size + size⟩) :
    Keeps rgn base size j joined := by
  have start : base.toNat ≠ 0 := fun zero => nonzero (UInt32.toNat_inj.mp zero)
  have noWrap := sorted.noWrap j inside
  have nonempty := sorted.nonempty many inside
  have own : (rgn.region j).hi = (rgn.region j).lo + (rgn.region j).size.toNat := rfl
  have shape : (rgn.region (j + 1)).hi =
      (rgn.region (j + 1)).lo + (rgn.region (j + 1)).size.toNat := rfl
  have value : base.toNat = (rgn.region j).hi % 2 ^ 32 :=
    (congrArg UInt32.toNat before).trans (UInt32.toNat_add ..)
  have stops : (rgn.region j).hi = base.toNat := by omega
  have inner : (rgn.region j).lo + (rgn.region j).size.toNat + size.toNat < 2 ^ 32 ∨
      (rgn.region j).lo ≠ 0 := by
    by_contra both
    have whole : base.toNat + size.toNat = 2 ^ 32 := by omega
    have zero := bottom whole j inside (by omega)
    omega
  have length : ((rgn.region j).size + size).toNat =
      base.toNat + size.toNat - (rgn.region j).lo := by
    rw [UInt32.toNat_add]
    omega
  have both : ((rgn.region j).size + size + (rgn.region (j + 1)).size).toNat =
      (base.toNat + size.toNat - (rgn.region j).lo + (rgn.region (j + 1)).size.toNat) %
        2 ^ 32 := by
    rw [UInt32.toNat_add, length]
  have same : (rgn.region j).base.toNat = (rgn.region j).lo := rfl
  have spans : base.toNat + size.toNat - (rgn.region j).lo + (rgn.region (j + 1)).size.toNat +
        (rgn.region j).lo ≤ 2 ^ 32 →
      Spans ⟨(rgn.region j).base, (rgn.region j).size + size + (rgn.region (j + 1)).size⟩
        base.toNat size.toNat := by
    intro fits
    by_cases whole : base.toNat + size.toNat - (rgn.region j).lo +
        (rgn.region (j + 1)).size.toNat = 2 ^ 32
    · right
      rw [whole, Nat.mod_self] at both
      rw [LmbProperty.mk.injEq, ← UInt32.toNat_inj, ← UInt32.toNat_inj, both, same]
      exact ⟨by rw [UInt32.toNat_zero]; omega, rfl⟩
    · left
      have below : (rgn.region j).lo ≤ base.toNat := by omega
      refine ⟨below, ?_, ?_⟩
      · rw [LmbProperty.hi, both, same]
        omega
      · rw [LmbProperty.hi, both, same]
        omega
  subst joins
  refine ⟨.inl ⟨?_, ?_, ?_⟩, fun more touch => spans ?_⟩
  · simp only [LmbProperty.lo] at *
    omega
  · rw [LmbProperty.hi, length]
    dsimp only
    omega
  · rw [LmbProperty.hi, length]
    dsimp only
    omega
  · have order := sorted.ordered j (j + 1) (by omega) more
    have nonempty' := sorted.nonempty many more
    have noWrap' := sorted.noWrap (j + 1) more
    rcases adjacent_meets touch with after | wraps
    · dsimp only at after
      rw [same, length] at after
      omega
    · dsimp only at wraps
      rw [same] at wraps
      have bottomMost : j = 0 := by
        by_contra later
        have order' := sorted.ordered (j - 1) j (by omega) inside
        have nonempty'' := sorted.nonempty many (show j - 1 < rgn.cnt by omega)
        omega
      have start' : (rgn.region j).lo = 0 := by omega
      have stop : (rgn.region (j + 1)).hi = 2 ^ 32 := by omega
      have two : rgn.cnt = 2 := by
        by_contra others
        have order' := sorted.ordered (j + 1) (j + 2) (by omega) (by omega)
        have small : (rgn.region (j + 2)).lo < 2 ^ 32 := (rgn.region (j + 2)).base.toNat_lt
        omega
      have apart : base.toNat + size.toNat ≤ (rgn.region (j + 1)).lo := by
        subst bottomMost
        exact gap two start' stop stops
      omega

end Join

/-- The range gets its addresses, where the table keeps them. -/
theorem lmbAddRegion_spans (some : rgn.cnt ≠ 0)
    (bottom : base.toNat + size.toNat = 2 ^ 32 →
      ∀ i < rgn.cnt, (rgn.region i).lo = 0 → (rgn.region i).hi = 0)
    (gap : rgn.cnt = 2 → (rgn.region 0).lo = 0 → (rgn.region 1).hi = 2 ^ 32 →
      (rgn.region 0).hi = base.toNat → base.toNat + size.toNat ≤ (rgn.region 1).lo)
    {ret : Int} {after : LmbRegion} (added : lmbAddRegion rgn base size = .some (ret, after))
    (done : ¬ret < 0) : ∃ k < after.cnt, Spans (after.region k) base.toNat size.toNat := by
  have whole : Spans ⟨base, size⟩ base.toNat size.toNat := .inl ⟨Nat.le_refl _, Nat.le_refl _, top⟩
  by_cases dummy : rgn.cnt = 1 ∧ (rgn.region 0).size = 0
  · rw [lmbAddRegion, if_pos dummy, Option.some.injEq, Prod.mk.injEq] at added
    rw [← added.2]
    refine ⟨0, by rw [dummy.1]; decide, ?_⟩
    dsimp only
    rwa [Function.update_self]
  rw [lmbAddRegion_filled base size some dummy] at added
  have joined := @findNeighbour_joins rgn.region base size 0 rgn.cnt
  cases search : findNeighbour rgn.region base size 0 rgn.cnt with
  | same =>
    rw [search] at added joined
    obtain ⟨j, -, inside, same⟩ := joined
    rw [Option.some.injEq, Prod.mk.injEq] at added
    rw [← added.2]
    exact ⟨j, by omega, same ▸ whole⟩
  | joins j entry =>
    rw [search] at added joined
    obtain ⟨-, inside, joins⟩ := joined
    rw [Nat.zero_add] at inside
    obtain ⟨single, double⟩ : Keeps rgn base size j entry := by
      rcases joins with ⟨behind, joined⟩ | ⟨-, before, joined⟩
      · exact joinsBehind_spans sorted nonzero positive top inside dummy bottom behind joined
      · exact joinsBefore_spans sorted nonzero positive top inside dummy bottom gap before joined
    dsimp only at added
    by_cases more : j + 1 < rgn.cnt ∧ lmbRegionsAdjacent (rgn.set j entry) j (j + 1) ≠ 0
    · obtain ⟨after', coalesced, inside', shape, -⟩ := lmbCoalesceRegions_entry more.1 entry
      rw [if_pos more, coalesced, Option.map_some, Option.some.injEq, Prod.mk.injEq] at added
      rw [← added.2]
      exact ⟨j, inside', shape ▸ double more.1 more.2⟩
    · rw [if_neg more, Option.some.injEq, Prod.mk.injEq] at added
      rw [← added.2]
      refine ⟨j, inside, ?_⟩
      rwa [set_self]
  | none =>
    rw [search] at added
    dsimp only at added
    by_cases room : rgn.cnt < maxLmbRegions
    · obtain ⟨after', inserted, k, inside, shape⟩ := @insertRegion_entry rgn base size some room
      rw [inserted, Option.some.injEq, Prod.mk.injEq] at added
      rw [← added.2]
      exact ⟨k, inside, shape ▸ whole⟩
    · rw [insertRegion, if_pos (by omega), Option.some.injEq, Prod.mk.injEq] at added
      rw [← added.1] at done
      exact absurd (by decide) done

end Add

/-! ## Addresses that are lost -/

/-- An entry does not have the address, as `lmb_is_reserved` computes it. -/
def Misses (entry : LmbProperty) (a : UInt32) : Prop :=
  ¬(entry.base ≤ a ∧ a ≤ entry.base + entry.size - 1)

theorem misses_of_wraps {entry : LmbProperty} {a : UInt32} {part : Nat}
    (total : entry.base.toNat + entry.size.toNat = part ∨
      entry.base.toNat + entry.size.toNat = part + 2 ^ 32)
    (positive : 0 < part) (short : part ≤ a.toNat) : Misses entry a := by
  rintro ⟨-, high⟩
  have bound := a.toNat_lt
  rw [UInt32.le_iff_toNat_le, UInt32.toNat_sub, UInt32.toNat_add, UInt32.toNat_one] at high
  omega

theorem not_isReserved {rgn : LmbRegion} {a : UInt32}
    (misses : ∀ k < rgn.cnt, Misses (rgn.region k) a) : lmbIsReserved rgn a = false := by
  unfold lmbIsReserved
  rw [List.any_eq_false]
  intro k member
  rw [decide_eq_true_eq]
  exact misses k (List.mem_range.mp member)

section Lost

variable {rgn : LmbRegion} (sorted : Sorted rgn) (many : ¬(rgn.cnt = 1 ∧ (rgn.region 0).size = 0))
  {base : UInt32}
include sorted many

theorem Sorted.misses (free : ¬Covers rgn base.toNat) {i : Nat} (inside : i < rgn.cnt) :
    Misses (rgn.region i) base := by
  rintro ⟨low, high⟩
  have nonempty := sorted.nonempty many inside
  have noWrap := sorted.noWrap i inside
  have upper : ((rgn.region i).base + (rgn.region i).size - 1).toNat = (rgn.region i).hi - 1 := by
    rw [UInt32.toNat_sub, UInt32.toNat_add, UInt32.toNat_one]
    unfold LmbProperty.hi at *
    omega
  rw [UInt32.le_iff_toNat_le] at low
  rw [UInt32.le_iff_toNat_le, upper] at high
  exact free ⟨i, inside, low, by omega⟩

theorem joins_lost {size : UInt32} (free : ¬Covers rgn base.toNat) {joined : LmbProperty}
    (joins : findNeighbour rgn.region base size 0 rgn.cnt = .joins 0 joined) (some : 0 < rgn.cnt)
    (single : ¬(1 < rgn.cnt ∧ lmbRegionsAdjacent (rgn.set 0 joined) 0 1 ≠ 0) → Misses joined base)
    (double : 1 < rgn.cnt → lmbRegionsAdjacent (rgn.set 0 joined) 0 1 ≠ 0 →
      Misses ⟨joined.base, joined.size + (rgn.region 1).size⟩ base)
    {ret : Int} {after : LmbRegion} (added : lmbAddRegion rgn base size = .some (ret, after)) :
    lmbIsReserved after base = false := by
  rw [lmbAddRegion_filled base size (by omega) many, joins] at added
  dsimp only at added
  apply not_isReserved
  by_cases more : 0 + 1 < rgn.cnt ∧ lmbRegionsAdjacent (rgn.set 0 joined) 0 (0 + 1) ≠ 0
  · obtain ⟨after', coalesced, -, shape, others⟩ := lmbCoalesceRegions_entry more.1 joined
    rw [if_pos more, coalesced, Option.map_some, Option.some.injEq, Prod.mk.injEq] at added
    rw [← added.2]
    intro k inside
    by_cases first : k = 0
    · rw [first, shape]
      exact double more.1 more.2
    · obtain ⟨i, inside', same⟩ := others k inside first
      rw [same]
      exact sorted.misses many free inside'
  · rw [if_neg more, Option.some.injEq, Prod.mk.injEq] at added
    rw [← added.2]
    intro k inside
    by_cases first : k = 0
    · rw [first, set_self]
      exact single more
    · rw [set_other rgn first]
      exact sorted.misses many free inside

end Lost

/-- What keeps the addresses of a range that is added, when it is rounded up. -/
structure Lasting (rgn : LmbRegion) (base size rounded : Nat) : Prop where
  /-- An empty table takes the range, or its old entry has the addresses. -/
  empty : rgn.cnt = 0 → lmbRegionsAdjacent rgn 0 1 = 0 → base < (rgn.region 0).lo ∨
    ∀ a : UInt32, base ≤ a.toNat → a.toNat < base + size → ¬Misses (rgn.region 0) a
  /-- A range up to the top of the address space does not join one at the bottom. -/
  bottom : 0 < rgn.cnt → (rgn.region 0).lo = 0 → 0 < (rgn.region 0).hi → base + rounded ≠ 2 ^ 32
  /-- Where a gap is all that is not reserved, a range at its start ends in the gap. -/
  around : rgn.cnt = 2 → (rgn.region 0).lo = 0 → (rgn.region 1).hi = 2 ^ 32 →
    (rgn.region 0).hi = base → base + rounded ≤ (rgn.region 1).lo

section Lasting

variable {rgn : LmbRegion} (sorted : Sorted rgn) {base size rounded : UInt32} (nonzero : base ≠ 0)
  (positive : 0 < size.toNat) (fits : size.toNat ≤ rounded.toNat)
  (clear : Clear rgn base.toNat size.toNat)
include sorted nonzero positive fits clear

omit sorted positive fits clear in
theorem bottom_joins (some : 0 < rgn.cnt) (start : (rgn.region 0).lo = 0)
    (top : base.toNat + rounded.toNat = 2 ^ 32) :
    findNeighbour rgn.region base rounded 0 rgn.cnt =
      .joins 0 ⟨(rgn.region 0).base - rounded, (rgn.region 0).size + rounded⟩ := by
  have start' : (rgn.region 0).base.toNat = 0 := start
  obtain ⟨n, cnt⟩ : ∃ n, rgn.cnt = n + 1 := ⟨rgn.cnt - 1, by omega⟩
  have different : ¬((rgn.region 0).base = base ∧ (rgn.region 0).size = rounded) := by
    rintro ⟨same, -⟩
    rw [same] at start'
    exact nonzero (UInt32.toNat_inj.mp start')
  have behind : (rgn.region 0).base = base + rounded := by
    rw [← UInt32.toNat_inj, UInt32.toNat_add, top, start', Nat.mod_self]
  rw [cnt, findNeighbour, if_neg different]
  simp only [lmbAddrsAdjacent, if_pos behind, if_pos (show (0 : Int) < 1 by decide)]

variable {after : LmbRegion} {ret : Int}

/-- A range up to the top of the address space is lost in an entry at the bottom. -/
theorem bottom_lost (some : 0 < rgn.cnt) (start : (rgn.region 0).lo = 0)
    (filled : 0 < (rgn.region 0).hi) (top : base.toNat + rounded.toNat = 2 ^ 32)
    (added : lmbAddRegion rgn base rounded = .some (ret, after)) :
    lmbIsReserved after base = false := by
  have nonzero' : base.toNat ≠ 0 := fun zero => nonzero (UInt32.toNat_inj.mp zero)
  have start' : (rgn.region 0).base.toNat = 0 := start
  have shape : ∀ i, (rgn.region i).hi = (rgn.region i).lo + (rgn.region i).size.toNat :=
    fun _ => rfl
  have shape₀ := shape 0
  have shape₁ := shape 1
  have many : ¬(rgn.cnt = 1 ∧ (rgn.region 0).size = 0) := by
    rintro ⟨-, zero⟩
    rw [zero, UInt32.toNat_zero] at shape₀
    omega
  have apart := (sorted.clear_iff positive _).mp clear
  have apart₀ := apart 0 some
  have joins := bottom_joins nonzero some start top
  have low : ((rgn.region 0).base - rounded).toNat = base.toNat := by
    rw [UInt32.toNat_sub]
    omega
  have length : ((rgn.region 0).size + rounded).toNat =
      ((rgn.region 0).hi + rounded.toNat) % 2 ^ 32 := by
    rw [UInt32.toNat_add]
    omega
  apply joins_lost sorted many (clear _ (Nat.le_refl _) (by omega)) joins some _ _ added
  · intro _
    apply @misses_of_wraps _ _ (rgn.region 0).hi
    · dsimp only
      rw [low, length]
      omega
    · exact filled
    · omega
  · intro more touch
    have order := sorted.ordered 0 1 (by omega) more
    have apart₁ := apart 1 more
    have nonempty := sorted.nonempty many more
    have near : (rgn.region 1).hi ≤ base.toNat := by
      rw [lmbRegionsAdjacent, set_self, set_other rgn (by omega), lmbAddrsAdjacent] at touch
      by_cases behind : (rgn.region 1).base =
          (rgn.region 0).base - rounded + ((rgn.region 0).size + rounded)
      · have value := congrArg UInt32.toNat behind
        rw [UInt32.toNat_add, low, length] at value
        change (rgn.region 1).lo = _ at value
        omega
      · rw [if_neg behind] at touch
        by_cases before : (rgn.region 0).base - rounded = (rgn.region 1).base + (rgn.region 1).size
        · have value := congrArg UInt32.toNat before
          rw [UInt32.toNat_add, low] at value
          change base.toNat = (rgn.region 1).hi % 2 ^ 32 at value
          have noWrap := sorted.noWrap 1 more
          omega
        · exact absurd (if_neg before) touch
    have total : ((rgn.region 0).size + rounded + (rgn.region 1).size).toNat =
        ((rgn.region 0).hi + (rgn.region 1).size.toNat + rounded.toNat) % 2 ^ 32 := by
      rw [UInt32.toNat_add, length]
      omega
    apply @misses_of_wraps _ _ ((rgn.region 0).hi + (rgn.region 1).size.toNat)
    · dsimp only
      rw [low, total]
      omega
    · omega
    · omega

/-- A range in the gap is lost when it makes one entry of the two around it, and of more than the
address space. -/
theorem around_lost (short : rounded.toNat < size.toNat + base.toNat) (two : rgn.cnt = 2)
    (start : (rgn.region 0).lo = 0) (stop : (rgn.region 1).hi = 2 ^ 32)
    (met : (rgn.region 0).hi = base.toNat) (past : (rgn.region 1).lo < base.toNat + rounded.toNat)
    (top : base.toNat + rounded.toNat < 2 ^ 32)
    (added : lmbAddRegion rgn base rounded = .some (ret, after)) :
    lmbIsReserved after base = false := by
  have nonzero' : base.toNat ≠ 0 := fun zero => nonzero (UInt32.toNat_inj.mp zero)
  have start' : (rgn.region 0).base.toNat = 0 := start
  have shape₀ : (rgn.region 0).hi = (rgn.region 0).lo + (rgn.region 0).size.toNat := rfl
  have shape₁ : (rgn.region 1).hi = (rgn.region 1).lo + (rgn.region 1).size.toNat := rfl
  have many : ¬(rgn.cnt = 1 ∧ (rgn.region 0).size = 0) := by omega
  have nonempty := sorted.nonempty many (show 1 < rgn.cnt by omega)
  have apart := (sorted.clear_iff positive _).mp clear 1 (by omega)
  have joins : findNeighbour rgn.region base rounded 0 rgn.cnt =
      .joins 0 ⟨(rgn.region 0).base, (rgn.region 0).size + rounded⟩ := by
    have different : ¬((rgn.region 0).base = base ∧ (rgn.region 0).size = rounded) := by
      rintro ⟨same, -⟩
      rw [same] at start'
      exact nonzero' start'
    have behind : ¬(rgn.region 0).base = base + rounded := by
      rw [← UInt32.toNat_inj, UInt32.toNat_add]
      omega
    have before : base = (rgn.region 0).base + (rgn.region 0).size := by
      rw [← UInt32.toNat_inj, UInt32.toNat_add]
      omega
    rw [two, findNeighbour, if_neg different]
    simp only [lmbAddrsAdjacent, if_neg behind, if_pos before,
      if_neg (show ¬(0 : Int) < -1 by decide), if_pos (show (-1 : Int) < 0 by decide)]
  have length : ((rgn.region 0).size + rounded).toNat = base.toNat + rounded.toNat := by
    rw [UInt32.toNat_add]
    omega
  apply joins_lost sorted many (clear _ (Nat.le_refl _) (by omega)) joins (by omega) _ _ added
  · intro alone
    refine absurd ⟨by omega, ?_⟩ alone
    have before : (rgn.region 0).base = (rgn.region 1).base + (rgn.region 1).size := by
      rw [← UInt32.toNat_inj, UInt32.toNat_add]
      change _ = (rgn.region 1).hi % 2 ^ 32
      omega
    rw [lmbRegionsAdjacent, set_self, set_other rgn (by omega), lmbAddrsAdjacent, if_pos before]
    split
    · decide
    · decide
  · intro _ _
    have total : ((rgn.region 0).size + rounded + (rgn.region 1).size).toNat =
        base.toNat + rounded.toNat - (rgn.region 1).lo := by
      rw [UInt32.toNat_add, length]
      omega
    apply @misses_of_wraps _ _ (base.toNat + rounded.toNat - (rgn.region 1).lo)
    · dsimp only
      rw [total]
      omega
    · omega
    · omega

/-- The addresses of a clear range are reserved then, exactly where the table keeps them. -/
theorem lmbAddRegion_lasting (short : rounded.toNat < size.toNat + base.toNat)
    (top : base.toNat + rounded.toNat ≤ 2 ^ 32)
    (added : lmbAddRegion rgn base rounded = .some (ret, after)) (done : ¬ret < 0) :
    (∀ a : UInt32, base.toNat ≤ a.toNat → a.toNat < base.toNat + size.toNat →
      lmbIsReserved after a = true) ↔ Lasting rgn base.toNat size.toNat rounded.toNat := by
  by_cases none : rgn.cnt = 0
  · rw [lmbAddRegion_empty base rounded none] at added
    by_cases touch : lmbRegionsAdjacent rgn 0 1 = 0
    · rw [if_neg (by rw [touch]; decide), Option.some.injEq, Prod.mk.injEq] at added
      have outcome : (∀ a : UInt32, base.toNat ≤ a.toNat → a.toNat < base.toNat + size.toNat →
          lmbIsReserved after a = true) ↔ base.toNat < (rgn.region 0).lo ∨
            ∀ a : UInt32, base.toNat ≤ a.toNat → a.toNat < base.toNat + size.toNat →
              ¬Misses (rgn.region 0) a := by
        rw [← added.2]
        by_cases less : base < (rgn.region 0).base
        · refine iff_of_true ?_ (.inl (UInt32.lt_iff_toNat_lt.mp less))
          rw [if_pos less]
          intro a low high
          apply @Spans.isReserved _ 0 base.toNat rounded.toNat (Nat.zero_lt_one) _ a low (by omega)
          dsimp only
          rw [Function.update_self]
          exact .inl ⟨Nat.le_refl _, Nat.le_refl _, top⟩
        · have less' : ¬base.toNat < (rgn.region 0).lo := fun below =>
            less (UInt32.lt_iff_toNat_lt.mpr below)
          rw [or_iff_right less', if_neg less]
          refine forall_congr' fun a => imp_congr_right fun _ => imp_congr_right fun _ => ?_
          rw [lmbIsReserved, List.any_eq_true]
          constructor
          · rintro ⟨k, member, holds⟩
            rw [List.mem_range, Nat.lt_one_iff] at member
            rw [member, decide_eq_true_eq] at holds
            exact not_not_intro holds
          · intro holds
            exact ⟨0, List.mem_range.mpr Nat.zero_lt_one, decide_eq_true (not_not.mp holds)⟩
      rw [outcome]
      constructor
      · exact fun keeps => ⟨fun _ _ => keeps, fun some => absurd none (by omega),
          fun two => absurd none (by omega)⟩
      · exact fun lasting => lasting.empty none touch
    · rw [if_pos touch] at added
      cases added
  · have own : base.toNat < base.toNat + size.toNat := by omega
    constructor
    · intro reserved
      have here := reserved base (Nat.le_refl _) own
      refine ⟨fun zero => absurd zero none, ?_, ?_⟩
      · intro some start filled reach
        rw [bottom_lost sorted nonzero positive fits clear some start filled reach added] at here
        cases here
      · intro two start stop met
        by_contra past
        by_cases reach : base.toNat + rounded.toNat = 2 ^ 32
        · rw [bottom_lost sorted nonzero positive fits clear (by omega) start (by
            have nonzero' : base.toNat ≠ 0 := fun zero => nonzero (UInt32.toNat_inj.mp zero)
            omega) reach added] at here
          cases here
        · rw [around_lost sorted nonzero positive fits clear short two start stop met (by omega)
            (by omega) added] at here
          cases here
    · intro lasting a low high
      obtain ⟨k, inside, spans⟩ := lmbAddRegion_spans sorted nonzero (by omega) top none (by
        intro reach i inside start
        by_contra filled
        have first : i = 0 := by
          by_contra later
          have order := sorted.ordered 0 i (by omega) inside
          rcases sorted.solid 0 (by omega) with nonempty | ⟨one, -⟩
          · omega
          · omega
        subst first
        exact lasting.bottom (by omega) start (by omega) reach) lasting.around added done
      exact spans.isReserved inside low (by omega)

end Lasting

end HrppBoot.Lmb
