import HrppBoot.Lib.Align
import HrppBoot.Lmb.Reserved

/-!
# Allocating memory

`__lmb_alloc_base` looks for room from the last region of the memory down. In each region it starts
as high as the limit admits, and goes below every reservation that it meets. `searchDown` is this
loop, `findBase` the loop over the regions. Where no subtraction of a first candidate wraps, and
the overlap test sees what is reserved there, the base that is found is the greatest that can be
used: between a candidate and the next every base meets the reservation in between.
-/

namespace HrppBoot.Lmb

/-! ## The code -/

/-- `lmb`: the memory and what is reserved of it. -/
structure LmbState where
  memory : LmbRegion
  reserved : LmbRegion

def lmbAddrsOverlap (base1 size1 base2 size2 : UInt32) : Bool :=
  base1 < base2 + size2 ∧ base2 < base1 + size1

def lmbOverlapsRegion (rgn : LmbRegion) (base size : UInt32) : Option Nat :=
  (List.range rgn.cnt).find? fun i =>
    lmbAddrsOverlap base size (rgn.region i).base (rgn.region i).size

def lmbAlignDown (addr size : UInt32) : UInt32 := addr &&& ~~~(size - 1)

def lmbAlignUp (addr size : UInt32) : UInt32 := (addr + (size - 1)) &&& ~~~(size - 1)

/-- `min` -/
def lmbMin (x y : UInt32) : UInt32 := if x < y then x else y

/-- The first candidate in a region of the memory; `LMB_ALLOC_ANYWHERE` is 0. -/
def firstBase (region : LmbProperty) (size align maxAddr : UInt32) : Option UInt32 :=
  if region.size < size then none
  else if maxAddr = 0 then some (lmbAlignDown (region.base + region.size - size) align)
  else if region.base < maxAddr then
    let base := region.base + region.size
    let base := if base < region.base then 0xffffffff else base
    some (lmbAlignDown (lmbMin base maxAddr - size) align)
  else none

theorem searchDown_lower {rgn : LmbRegion} {base size align : UInt32} {j : Nat}
    (met : lmbOverlapsRegion rgn base size = some j) (fits : ¬(rgn.region j).base < size) :
    (lmbAlignDown ((rgn.region j).base - size) align).toNat < base.toNat := by
  have overlaps := List.find?_some met
  simp only [lmbAddrsOverlap, Bool.decide_and, Bool.and_eq_true, decide_eq_true_eq,
    UInt32.lt_iff_toNat_lt, UInt32.toNat_add] at overlaps
  rw [UInt32.lt_iff_toNat_lt, Nat.not_lt] at fits
  have masked : (lmbAlignDown ((rgn.region j).base - size) align).toNat ≤
      (rgn.region j).base.toNat - size.toNat := by
    rw [lmbAlignDown, UInt32.toNat_and,
      UInt32.toNat_sub_of_le _ _ (UInt32.le_iff_toNat_le.mpr fits)]
    exact Nat.and_le_left
  have low := base.toNat_lt
  omega

/-- The loop in a region, from a candidate down: a base that is not reserved. -/
def searchDown (reserved : LmbRegion) (lmbbase size align base : UInt32) : Option UInt32 :=
  if base = 0 ∨ base < lmbbase then none
  else
    match _met : lmbOverlapsRegion reserved base size with
    | none => some base
    | some j =>
      let resBase := (reserved.region j).base
      if _below : resBase < size then none
      else searchDown reserved lmbbase size align (lmbAlignDown (resBase - size) align)
termination_by base.toNat
decreasing_by exact searchDown_lower _met _below

theorem searchDown_turn (reserved : LmbRegion) (lmbbase size align base : UInt32) :
    searchDown reserved lmbbase size align base =
      if base = 0 ∨ base < lmbbase then none
      else
        match lmbOverlapsRegion reserved base size with
        | none => some base
        | some j =>
          if (reserved.region j).base < size then none
          else searchDown reserved lmbbase size align
            (lmbAlignDown ((reserved.region j).base - size) align) := by
  rw [searchDown]
  split
  · rfl
  · split
    · rename_i unseen
      rw [unseen]
    · rename_i j met
      rw [met]
      simp only [dite_eq_ite]

/-- The loop over the regions of the memory that are left: a base that is not reserved. -/
def findBase (lmb : LmbState) (size align maxAddr : UInt32) : Nat → Option UInt32
  | 0 => none
  | i + 1 =>
    let region := lmb.memory.region i
    match (firstBase region size align maxAddr).bind
        (searchDown lmb.reserved region.base size align) with
    | some base => some base
    | none => findBase lmb size align maxAddr i

/-- `__lmb_alloc_base`: the base, and what is reserved then. -/
def lmbAllocBase (lmb : LmbState) (size align maxAddr : UInt32) : Option (UInt32 × LmbRegion) :=
  match findBase lmb size align maxAddr lmb.memory.cnt with
  | none => some (0, lmb.reserved)
  | some base =>
    (lmbAddRegion lmb.reserved base (lmbAlignUp size align)).map fun (ret, reserved) =>
      if ret < 0 then (0, reserved) else (base, reserved)

/-! ## Bases that can be used -/

/-- A table as it may be handed over: sorted, disjoint, and without ranges that wrap. The one entry
without addresses is the dummy of `lmb_init`. -/
structure Sorted (rgn : LmbRegion) : Prop where
  bound : rgn.cnt ≤ maxLmbRegions
  noWrap : ∀ i < rgn.cnt, (rgn.region i).hi ≤ 2 ^ 32
  solid : ∀ i < rgn.cnt, (rgn.region i).lo < (rgn.region i).hi ∨
    rgn.cnt = 1 ∧ rgn.region i = ⟨0, 0⟩
  ordered : ∀ i j, i < j → j < rgn.cnt → (rgn.region i).hi ≤ (rgn.region j).lo

/-- No address of a range is reserved. -/
def Clear (rgn : LmbRegion) (base size : Nat) : Prop :=
  ∀ a, base ≤ a → a < base + size → ¬Covers rgn a

/-- What an allocation has to be: aligned, inside one region of the memory, below the limit, and not
reserved. -/
structure Usable (lmb : LmbState) (size align maxAddr : UInt32) (base : Nat) : Prop where
  nonzero : base ≠ 0
  aligned : align.toNat ∣ base
  inside : ∃ i < lmb.memory.cnt, (lmb.memory.region i).lo ≤ base ∧
    base + size.toNat ≤ (lmb.memory.region i).hi
  limit : maxAddr ≠ 0 → base + size.toNat ≤ maxAddr.toNat
  clear : Clear lmb.reserved base size.toNat

section Overlap

variable {rgn : LmbRegion} (sorted : Sorted rgn) {base size : UInt32}
include sorted

theorem Sorted.clear_iff (positive : 0 < size.toNat) (b : Nat) :
    Clear rgn b size.toNat ↔
      ∀ i < rgn.cnt, (rgn.region i).hi ≤ b ∨ b + size.toNat ≤ (rgn.region i).lo := by
  constructor
  · intro clear i inside
    by_contra meets
    rcases sorted.solid i inside with nonempty | ⟨-, dummy⟩
    · apply clear (max b (rgn.region i).lo) (by omega) (by omega)
      exact ⟨i, inside, by omega, by omega⟩
    · rw [dummy] at meets
      exact meets (.inl (Nat.zero_le _))
  · rintro apart a low high ⟨i, inside, from_, upTo⟩
    have apart := apart i inside
    omega

omit sorted in
theorem lmbAddrsOverlap_iff (region : LmbProperty) :
    lmbAddrsOverlap base size region.base region.size = true ↔
      base.toNat < region.hi % 2 ^ 32 ∧ region.lo < (base.toNat + size.toNat) % 2 ^ 32 := by
  simp only [lmbAddrsOverlap, Bool.decide_and, Bool.and_eq_true, decide_eq_true_eq,
    UInt32.lt_iff_toNat_lt, UInt32.toNat_add, LmbProperty.hi, LmbProperty.lo]

theorem Sorted.met {j : Nat} (met : lmbOverlapsRegion rgn base size = some j) :
    j < rgn.cnt ∧ base.toNat < (rgn.region j).hi ∧ (rgn.region j).hi < 2 ^ 32 ∧
      (rgn.region j).lo < base.toNat + size.toNat := by
  have inside : j < rgn.cnt := List.mem_range.mp (List.mem_of_find?_eq_some met)
  have overlaps := List.find?_some met
  rw [lmbAddrsOverlap_iff] at overlaps
  have noWrap := sorted.noWrap j inside
  refine ⟨inside, ?_⟩
  omega

theorem Sorted.clear_below (positive : 0 < size.toNat) {j : Nat} (inside : j < rgn.cnt)
    (below : base.toNat + size.toNat ≤ (rgn.region j).lo)
    (unseen : lmbOverlapsRegion rgn base size = none) : Clear rgn base.toNat size.toNat := by
  have low : (rgn.region j).lo < 2 ^ 32 := (rgn.region j).base.toNat_lt
  rw [sorted.clear_iff positive]
  intro i member
  have tested := List.find?_eq_none.mp unseen i (List.mem_range.mpr member)
  rw [lmbAddrsOverlap_iff, Nat.mod_eq_of_lt (by omega : base.toNat + size.toNat < 2 ^ 32)] at tested
  rcases Nat.lt_trichotomy i j with before | rfl | behind
  · have order := sorted.ordered i j before inside
    rw [Nat.mod_eq_of_lt (by omega)] at tested
    omega
  · exact .inr below
  · have order := sorted.ordered j i behind member
    have shape : (rgn.region j).lo ≤ (rgn.region j).hi := Nat.le_add_right _ _
    right
    omega

end Overlap

/-! ## The search in a region -/

theorem toNat_under {entry : LmbProperty} {size align : UInt32} (power : align.toNat.isPowerOfTwo)
    (fits : size.toNat ≤ entry.lo) : (lmbAlignDown (entry.base - size) align).toNat =
      Align.down (entry.lo - size.toNat) align.toNat := by
  rw [lmbAlignDown, Align.toNat_and_not_pred power,
    UInt32.toNat_sub_of_le _ _ (UInt32.le_iff_toNat_le.mpr fits)]
  rfl

section Search

variable {reserved : LmbRegion} (sorted : Sorted reserved) {size align : UInt32}
  (positive : 0 < size.toNat) (power : align.toNat.isPowerOfTwo)
include sorted positive power

/-- The search from a candidate that the test sees right finds the greatest base that is clear. -/
theorem searchDown_greatest (lmbbase base : UInt32) (top : base.toNat + size.toNat ≤ 2 ^ 32)
    (aligned : align.toNat ∣ base.toNat)
    (seen : base ≠ 0 → lmbbase ≤ base → lmbOverlapsRegion reserved base size = none →
      Clear reserved base.toNat size.toNat) :
    match searchDown reserved lmbbase size align base with
    | some found => found ≠ 0 ∧ lmbbase.toNat ≤ found.toNat ∧ found.toNat ≤ base.toNat ∧
        align.toNat ∣ found.toNat ∧ Clear reserved found.toNat size.toNat ∧
        ∀ b, align.toNat ∣ b → found.toNat < b → b ≤ base.toNat → ¬Clear reserved b size.toNat
    | none => ∀ b, align.toNat ∣ b → b ≠ 0 → lmbbase.toNat ≤ b → b ≤ base.toNat →
        ¬Clear reserved b size.toNat := by
  induction base using searchDown.induct reserved lmbbase size align with
  | case1 base outside =>
    rw [searchDown, if_pos outside]
    intro b _ nonzero low high
    rcases outside with rfl | below
    · exact absurd (Nat.le_zero.mp high) nonzero
    · rw [UInt32.lt_iff_toNat_lt] at below
      omega
  | case2 base inside unseen =>
    obtain ⟨nonzero, low⟩ := not_or.mp inside
    rw [UInt32.not_lt] at low
    rw [searchDown_turn, if_neg inside, unseen]
    refine ⟨nonzero, UInt32.le_iff_toNat_le.mp low, Nat.le_refl _, aligned,
      seen nonzero low unseen, ?_⟩
    intro b _ above upTo
    omega
  | case3 base inside j met resBase below =>
    obtain ⟨member, under, -, -⟩ := sorted.met met
    rw [searchDown_turn, if_neg inside, met]
    dsimp only
    rw [if_pos below]
    intro b _ _ _ upTo clear
    have start : (reserved.region j).lo < size.toNat := UInt32.lt_iff_toNat_lt.mp below
    have apart := (sorted.clear_iff positive b).mp clear j member
    omega
  | case4 base inside j met resBase below ih =>
    obtain ⟨member, under, -, past⟩ := sorted.met met
    have start : size.toNat ≤ (reserved.region j).lo := by
      rw [UInt32.lt_iff_toNat_lt, Nat.not_lt] at below
      exact below
    have next : (lmbAlignDown (resBase - size) align).toNat =
        Align.down ((reserved.region j).lo - size.toNat) align.toNat := toNat_under power start
    have lower := Align.down_le ((reserved.region j).lo - size.toNat) align.toNat
    have shape : (reserved.region j).lo < 2 ^ 32 := (reserved.region j).base.toNat_lt
    rw [← next] at lower
    -- a multiple of the alignment between the two candidates meets the reservation
    have between : ∀ b, align.toNat ∣ b → (lmbAlignDown (resBase - size) align).toNat < b →
        b ≤ base.toNat → ¬Clear reserved b size.toNat := by
      intro b multiple above upTo clear
      have apart := (sorted.clear_iff positive b).mp clear j member
      have meets : ¬b ≤ (reserved.region j).lo - size.toNat := by
        intro le
        have bounded := Align.le_down multiple le
        omega
      omega
    have below_seen := ih (by omega) (next ▸ Align.dvd_down ..) fun _ _ unseen =>
      sorted.clear_below positive member (by omega) unseen
    rw [searchDown_turn, if_neg inside, met]
    dsimp only
    rw [if_neg below]
    change match searchDown reserved lmbbase size align (lmbAlignDown (resBase - size) align) with
      | some found => _
      | none => _
    generalize searchDown reserved lmbbase size align (lmbAlignDown (resBase - size) align) = result
      at below_seen ⊢
    cases result with
    | none =>
      intro b multiple nonzero low upTo
      rcases Nat.lt_or_ge (lmbAlignDown (resBase - size) align).toNat b with above | le
      · exact between b multiple above upTo
      · exact below_seen b multiple nonzero low le
    | some found =>
      obtain ⟨nonzero, low, le, multiple, clear, greatest⟩ := below_seen
      refine ⟨nonzero, low, by omega, multiple, clear, ?_⟩
      intro b multiple above upTo
      rcases Nat.lt_or_ge (lmbAlignDown (resBase - size) align).toNat b with higher | le
      · exact between b multiple higher upTo
      · exact greatest b multiple above le

end Search

/-! ## The search in the memory -/

/-- The address below which an allocation in a region has to end. -/
def ceiling (region : LmbProperty) (maxAddr : UInt32) : Nat :=
  if maxAddr = 0 then region.hi else min region.hi maxAddr.toNat

/-- The subtraction of a first candidate does not wrap. -/
def NoBorrow (size maxAddr : UInt32) : Prop := maxAddr = 0 ∨ size ≤ maxAddr

/-- Where the overlap test sees no reservation at a first candidate in its region, there is none. -/
def Seen (lmb : LmbState) (size align maxAddr : UInt32) : Prop :=
  ∀ i < lmb.memory.cnt, ∀ base, firstBase (lmb.memory.region i) size align maxAddr = some base →
    base ≠ 0 → (lmb.memory.region i).base ≤ base →
    lmbOverlapsRegion lmb.reserved base size = none → Clear lmb.reserved base.toNat size.toNat

/-- A base that can be used in one of the first `n` regions of the memory. -/
structure UsableIn (lmb : LmbState) (size align maxAddr : UInt32) (n base : Nat) : Prop where
  nonzero : base ≠ 0
  aligned : align.toNat ∣ base
  inside : ∃ i < n, (lmb.memory.region i).lo ≤ base ∧
    base + size.toNat ≤ ceiling (lmb.memory.region i) maxAddr
  clear : Clear lmb.reserved base size.toNat

section Memory

variable {lmb : LmbState} {size align maxAddr : UInt32}

theorem usable_iff (base : Nat) : Usable lmb size align maxAddr base ↔
    UsableIn lmb size align maxAddr lmb.memory.cnt base := by
  constructor
  · rintro ⟨nonzero, aligned, ⟨i, member, low, high⟩, limit, clear⟩
    refine ⟨nonzero, aligned, ⟨i, member, low, ?_⟩, clear⟩
    unfold ceiling
    split
    · exact high
    · rename_i some
      have limited := limit some
      omega
  · rintro ⟨nonzero, aligned, ⟨i, member, low, high⟩, clear⟩
    refine ⟨nonzero, aligned, ⟨i, member, low, ?_⟩, ?_, clear⟩
    · unfold ceiling at high
      split at high <;> omega
    · intro some
      rw [ceiling, if_neg some] at high
      omega

theorem toNat_lmbMin (x y : UInt32) : (lmbMin x y).toNat = min x.toNat y.toNat := by
  rw [lmbMin]
  split
  all_goals
    rename_i order
    rw [UInt32.lt_iff_toNat_lt] at order
    omega

/-- The first candidate is the greatest base that ends below the ceiling. -/
theorem firstBase_spec (positive : 0 < size.toNat) (power : align.toNat.isPowerOfTwo)
    {region : LmbProperty} (noWrap : region.hi ≤ 2 ^ 32)
    (noBorrow : NoBorrow size maxAddr) :
    match firstBase region size align maxAddr with
    | some base => size.toNat ≤ ceiling region maxAddr ∧
        base.toNat = Align.down (ceiling region maxAddr - size.toNat) align.toNat
    | none => ceiling region maxAddr < region.lo + size.toNat := by
  have lo : region.lo < 2 ^ 32 := region.base.toNat_lt
  have hi : region.hi = region.lo + region.size.toNat := rfl
  have total : (region.base + region.size).toNat = region.hi % 2 ^ 32 := UInt32.toNat_add ..
  unfold firstBase
  by_cases small : region.size < size
  · rw [if_pos small]
    rw [UInt32.lt_iff_toNat_lt] at small
    dsimp only
    unfold ceiling
    split <;> omega
  rw [if_neg small]
  rw [UInt32.lt_iff_toNat_lt] at small
  by_cases anywhere : maxAddr = 0
  · rw [if_pos anywhere]
    have base : (region.base + region.size - size).toNat = region.hi - size.toNat := by
      rw [UInt32.toNat_sub, total]
      omega
    simp only [ceiling, if_pos anywhere, lmbAlignDown, Align.toNat_and_not_pred power, base]
    exact ⟨by omega, trivial⟩
  rw [if_neg anywhere]
  by_cases below : region.base < maxAddr
  · rw [if_pos below]
    have limited : size ≤ maxAddr := noBorrow.resolve_left anywhere
    have limit := maxAddr.toNat_lt
    rw [UInt32.le_iff_toNat_le] at limited
    rw [UInt32.lt_iff_toNat_lt] at below
    have minimum : (lmbMin (if region.base + region.size < region.base then 0xffffffff
        else region.base + region.size) maxAddr).toNat = min region.hi maxAddr.toNat := by
      rw [toNat_lmbMin]
      by_cases wraps : region.hi = 2 ^ 32
      · rw [if_pos]
        · rw [show (0xffffffff : UInt32).toNat = 4294967295 from rfl]
          omega
        · have part := region.size.toNat_lt
          have same : region.base.toNat = region.lo := rfl
          rw [UInt32.lt_iff_toNat_lt, total, wraps]
          omega
      · rw [if_neg, total, Nat.mod_eq_of_lt (by omega)]
        rw [UInt32.lt_iff_toNat_lt, total, Nat.mod_eq_of_lt (by omega)]
        have same : region.base.toNat = region.lo := rfl
        omega
    have base : (lmbMin (if region.base + region.size < region.base then 0xffffffff
        else region.base + region.size) maxAddr - size).toNat =
          min region.hi maxAddr.toNat - size.toNat := by
      rw [UInt32.toNat_sub_of_le, minimum]
      rw [UInt32.le_iff_toNat_le, minimum]
      omega
    simp only [ceiling, if_neg anywhere, lmbAlignDown, Align.toNat_and_not_pred power, base]
    exact ⟨by omega, trivial⟩
  · rw [if_neg below]
    rw [UInt32.lt_iff_toNat_lt] at below
    simp only [ceiling, if_neg anywhere]
    have same : region.base.toNat = region.lo := rfl
    omega

section Find

variable (memory : Sorted lmb.memory) (reserved : Sorted lmb.reserved) (positive : 0 < size.toNat)
  (power : align.toNat.isPowerOfTwo)
include memory reserved positive power

omit memory in
/-- The search in one region finds its greatest base that can be used. -/
theorem region_greatest {region : LmbProperty} (noWrap : region.hi ≤ 2 ^ 32)
    (noBorrow : NoBorrow size maxAddr)
    (seen : ∀ base, firstBase region size align maxAddr = some base → base ≠ 0 →
      region.base ≤ base → lmbOverlapsRegion lmb.reserved base size = none →
      Clear lmb.reserved base.toNat size.toNat) :
    match (firstBase region size align maxAddr).bind
      (searchDown lmb.reserved region.base size align) with
    | some found => found ≠ 0 ∧ region.lo ≤ found.toNat ∧
        found.toNat + size.toNat ≤ ceiling region maxAddr ∧ align.toNat ∣ found.toNat ∧
        Clear lmb.reserved found.toNat size.toNat ∧
        ∀ b, align.toNat ∣ b → found.toNat < b → b + size.toNat ≤ ceiling region maxAddr →
          ¬Clear lmb.reserved b size.toNat
    | none => ∀ b, align.toNat ∣ b → b ≠ 0 → region.lo ≤ b →
        b + size.toNat ≤ ceiling region maxAddr → ¬Clear lmb.reserved b size.toNat := by
  have first := firstBase_spec positive power noWrap noBorrow
  have limit : ceiling region maxAddr ≤ 2 ^ 32 := by
    unfold ceiling
    split <;> omega
  cases start : firstBase region size align maxAddr with
  | none =>
    rw [start] at first
    intro b _ _ low high
    dsimp only at first
    omega
  | some base =>
    rw [start] at first
    obtain ⟨room, value⟩ := first
    have below := Align.down_le (ceiling region maxAddr - size.toNat) align.toNat
    have found := searchDown_greatest reserved positive power region.base base (by omega)
      (value ▸ Align.dvd_down ..) (seen base start)
    have covered : ∀ b, align.toNat ∣ b → b + size.toNat ≤ ceiling region maxAddr →
        b ≤ base.toNat := by
      intro b multiple high
      rw [value]
      exact Align.le_down multiple (by omega)
    rw [Option.bind_some]
    cases result : searchDown lmb.reserved region.base size align base with
    | none =>
      rw [result] at found
      intro b multiple nonzero low high
      exact found b multiple nonzero low (covered b multiple high)
    | some b =>
      rw [result] at found
      obtain ⟨nonzero, low, le, multiple, clear, greatest⟩ := found
      refine ⟨nonzero, low, by omega, multiple, clear, ?_⟩
      intro c multiple' above high
      exact greatest c multiple' above (covered c multiple' high)

/-- The search finds the greatest base that can be used, and nothing only if there is none. -/
theorem findBase_greatest (noBorrow : NoBorrow size maxAddr)
    (seen : Seen lmb size align maxAddr) {n : Nat} (bound : n ≤ lmb.memory.cnt) :
    match findBase lmb size align maxAddr n with
    | some found => UsableIn lmb size align maxAddr n found.toNat ∧
        ∀ b, UsableIn lmb size align maxAddr n b → b ≤ found.toNat
    | none => ∀ b, ¬UsableIn lmb size align maxAddr n b := by
  induction n with
  | zero =>
    intro b usable
    obtain ⟨i, member, -⟩ := usable.inside
    omega
  | succ n ih =>
    have own :=
      region_greatest reserved positive power (memory.noWrap n bound) noBorrow (seen n bound)
    have rest := ih (by omega)
    rw [findBase]
    -- a base in one of the first regions lies below the region
    have lower : ∀ i < n, ∀ b, b + size.toNat ≤ ceiling (lmb.memory.region i) maxAddr →
        b < (lmb.memory.region n).lo := by
      intro i member b high
      have order := memory.ordered i n member bound
      have limit : ceiling (lmb.memory.region i) maxAddr ≤ (lmb.memory.region i).hi := by
        unfold ceiling
        split <;> omega
      omega
    cases result : (firstBase (lmb.memory.region n) size align maxAddr).bind
        (searchDown lmb.reserved (lmb.memory.region n).base size align) with
    | some found =>
      rw [result] at own
      obtain ⟨nonzero, low, high, multiple, clear, greatest⟩ := own
      have nonzero' : found.toNat ≠ 0 := fun zero => nonzero (UInt32.toNat_inj.mp zero)
      refine ⟨⟨nonzero', multiple, ⟨n, by omega, low, high⟩, clear⟩, ?_⟩
      intro b usable
      obtain ⟨i, member, low', high'⟩ := usable.inside
      rcases Nat.lt_succ_iff_lt_or_eq.mp member with before | rfl
      · have under := lower i before b high'
        omega
      · by_contra above
        exact greatest b usable.aligned (by omega) high' usable.clear
    | none =>
      rw [result] at own
      have only : ∀ b, UsableIn lmb size align maxAddr (n + 1) b →
          UsableIn lmb size align maxAddr n b := by
        intro b usable
        obtain ⟨i, member, low', high'⟩ := usable.inside
        rcases Nat.lt_succ_iff_lt_or_eq.mp member with before | rfl
        · exact ⟨usable.nonzero, usable.aligned, ⟨i, before, low', high'⟩, usable.clear⟩
        · exact absurd usable.clear (own b usable.aligned usable.nonzero low' high')
      cases next : findBase lmb size align maxAddr n with
      | none =>
        rw [next] at rest
        exact fun b usable => rest b (only b usable)
      | some found =>
        rw [next] at rest
        obtain ⟨i, member, low, high⟩ := rest.1.inside
        exact ⟨⟨rest.1.nonzero, rest.1.aligned, ⟨i, by omega, low, high⟩, rest.1.clear⟩,
          fun b usable => rest.2 b (only b usable)⟩

end Find

end Memory

end HrppBoot.Lmb
