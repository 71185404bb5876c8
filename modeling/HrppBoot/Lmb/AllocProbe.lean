import HrppBoot.Lmb.AllocReserve
import Mathlib.Order.Bounds.Basic

/-!
# The bases that the search looks at

The search starts in each region of the memory at its first candidate. With a limit below the size
this one wraps and is the same in all regions; from there the search finds the greatest base below
the reservation that it meets. At the top of the address space the overlap test can miss a
reservation, and it misses it at the first candidate of all then.
-/

namespace HrppBoot.Lmb

section Allocation

variable (lmb : LmbState) (size align maxAddr : UInt32)

/-- A first candidate that the search looks at. -/
structure Starts (i : Nat) (base : UInt32) : Prop where
  first : firstBase (lmb.memory.region i) size align maxAddr = some base
  nonzero : base ≠ 0
  low : (lmb.memory.region i).base ≤ base

/-- The first base that the search looks at, in the first `n` regions. -/
structure FirstOf (n i : Nat) (base : UInt32) : Prop where
  inside : i < n
  starts : Starts lmb size align maxAddr i base
  above : ∀ k, i < k → k < n → ∀ other, ¬Starts lmb size align maxAddr k other

/-- The bases in a region that can be used below an entry, without the limit. -/
structure Under (i j b : Nat) : Prop where
  nonzero : b ≠ 0
  aligned : align.toNat ∣ b
  low : (lmb.memory.region i).lo ≤ b
  high : b + size.toNat ≤ (lmb.reserved.region j).lo
  clear : Clear lmb.reserved b size.toNat

/-- The greatest base below an entry, in the first `n` regions that have a first base. -/
def GreatestUnder (j n : Nat) : Option UInt32 → Prop
  | some found => (∃ i < n, ∃ base, Starts lmb size align maxAddr i base ∧
        IsGreatest {c | Under lmb size align i j c} found.toNat) ∧
      ∀ i < n, ∀ base, Starts lmb size align maxAddr i base →
        ∀ b, IsGreatest {c | Under lmb size align i j c} b → b = found.toNat
  | none => ∀ i < n, ∀ base, Starts lmb size align maxAddr i base →
      ∀ c, ¬Under lmb size align i j c

end Allocation

section Probes

variable {lmb : LmbState} {size align maxAddr : UInt32}

variable {base : UInt32} {i n : Nat}

theorem firstOf_exists (inside : i < n) (starts : Starts lmb size align maxAddr i base) :
    ∃ k found, i ≤ k ∧ FirstOf lmb size align maxAddr n k found := by
  induction n with
  | zero => omega
  | succ n ih =>
    by_cases top : ∃ found, Starts lmb size align maxAddr n found
    · obtain ⟨found, starts'⟩ := top
      exact ⟨n, found, by omega, Nat.lt_succ_self n, starts', fun k above below => by omega⟩
    · have less : i ≠ n := by
        rintro rfl
        exact top ⟨base, starts⟩
      obtain ⟨k, found, le, first⟩ := ih (by omega)
      refine ⟨k, found, le, by have := first.inside; omega, first.starts, ?_⟩
      intro k' above below other starts'
      rcases Nat.lt_succ_iff_lt_or_eq.mp below with less' | rfl
      · exact first.above k' above less' other starts'
      · exact top ⟨other, starts'⟩

theorem search_none (none : ∀ base, ¬Starts lmb size align maxAddr i base) :
    (firstBase (lmb.memory.region i) size align maxAddr).bind
      (searchDown lmb.reserved (lmb.memory.region i).base size align) = .none := by
  cases start : firstBase (lmb.memory.region i) size align maxAddr with
  | none => rfl
  | some base =>
    rw [Option.bind_some, searchDown_turn, if_pos]
    by_contra inside
    obtain ⟨nonzero, low⟩ := not_or.mp inside
    exact none base ⟨start, nonzero, UInt32.not_lt.mp low⟩

theorem Starts.search (starts : Starts lmb size align maxAddr i base) :
    (firstBase (lmb.memory.region i) size align maxAddr).bind
        (searchDown lmb.reserved (lmb.memory.region i).base size align) =
      searchDown lmb.reserved (lmb.memory.region i).base size align base := by
  rw [starts.first, Option.bind_some]

theorem Starts.inside (starts : Starts lmb size align maxAddr i base) :
    ¬(base = 0 ∨ base < (lmb.memory.region i).base) :=
  not_or.mpr ⟨starts.nonzero, UInt32.not_lt.mpr starts.low⟩

theorem FirstOf.findBase_eq (first : FirstOf lmb size align maxAddr n i base)
    (unseen : lmbOverlapsRegion lmb.reserved base size = none) :
    findBase lmb size align maxAddr n = some base := by
  induction n with
  | zero => exact absurd first.inside (Nat.not_lt_zero _)
  | succ n ih =>
    rw [findBase]
    rcases Nat.lt_succ_iff_lt_or_eq.mp first.inside with less | rfl
    · rw [search_none (first.above n less (Nat.lt_succ_self n))]
      exact ih ⟨less, first.starts, fun k above below => first.above k above (by omega)⟩
    · rw [first.starts.search, searchDown_turn, if_neg first.starts.inside, unseen]

theorem starts_of_findBase (found : findBase lmb size align maxAddr n = some base) :
    ∃ i < n, ∃ start, Starts lmb size align maxAddr i start := by
  induction n with
  | zero => cases found
  | succ n ih =>
    by_cases top : ∃ start, Starts lmb size align maxAddr n start
    · exact ⟨n, Nat.lt_succ_self n, top⟩
    · rw [findBase] at found
      rw [search_none (not_exists.mp top)] at found
      obtain ⟨i, inside, start⟩ := ih found
      exact ⟨i, by omega, start⟩

theorem firstBase_borrow {region : LmbProperty} (borrow : ¬NoBorrow size maxAddr)
    (first : firstBase region size align maxAddr = some base) :
    base = lmbAlignDown (maxAddr - size) align := by
  obtain ⟨limited, small⟩ := not_or.mp borrow
  rw [UInt32.not_le, UInt32.lt_iff_toNat_lt] at small
  unfold firstBase at first
  by_cases short : region.size < size
  · rw [if_pos short] at first
    cases first
  rw [if_neg short, if_neg limited] at first
  by_cases below : region.base < maxAddr
  · rw [if_pos below, Option.some.injEq] at first
    rw [← first]
    congr 2
    rw [UInt32.lt_iff_toNat_lt] at short
    rw [lmbMin, if_neg]
    rw [UInt32.lt_iff_toNat_lt]
    have bound := maxAddr.toNat_lt
    have part := region.size.toNat_lt
    by_cases wraps : region.base + region.size < region.base
    · rw [if_pos wraps, show (0xffffffff : UInt32).toNat = 4294967295 from rfl]
      omega
    · rw [if_neg wraps]
      rw [UInt32.lt_iff_toNat_lt] at wraps
      rw [UInt32.toNat_add] at wraps ⊢
      omega
  · rw [if_neg below] at first
    cases first

theorem Starts.borrow {k : Nat} {other : UInt32} (borrow : ¬NoBorrow size maxAddr)
    (starts : Starts lmb size align maxAddr i base)
    (starts' : Starts lmb size align maxAddr k other) : base = other :=
  (firstBase_borrow borrow starts.first).trans (firstBase_borrow borrow starts'.first).symm

end Probes

section Found

variable {lmb : LmbState} {size align maxAddr : UInt32} (memory : Sorted lmb.memory)
  (reserved : Sorted lmb.reserved) (positive : 0 < size.toNat)
  (power : align.toNat.isPowerOfTwo)
include reserved positive power

/-- Below an entry the search finds the greatest base that can be used there. -/
theorem Starts.search_under {i j : Nat} {base : UInt32}
    (starts : Starts lmb size align maxAddr i base)
    (met : lmbOverlapsRegion lmb.reserved base size = some j) :
    match searchDown lmb.reserved (lmb.memory.region i).base size align base with
    | some found => IsGreatest {c | Under lmb size align i j c} found.toNat
    | none => ∀ c, ¬Under lmb size align i j c := by
  have member := (reserved.met met).1
  have bound : (lmb.reserved.region j).lo < 2 ^ 32 := (lmb.reserved.region j).base.toNat_lt
  rw [searchDown_turn, if_neg starts.inside, met]
  dsimp only
  by_cases small : (lmb.reserved.region j).base < size
  · rw [if_pos small]
    rw [UInt32.lt_iff_toNat_lt] at small
    intro c candidate
    have high := candidate.high
    unfold LmbProperty.lo at high
    omega
  · rw [if_neg small]
    rw [UInt32.lt_iff_toNat_lt, Nat.not_lt] at small
    have value := toNat_under power small
    have le := Align.down_le ((lmb.reserved.region j).lo - size.toNat) align.toNat
    have fits : size.toNat ≤ (lmb.reserved.region j).lo := small
    have greatest := searchDown_greatest reserved positive power (lmb.memory.region i).base
      (lmbAlignDown ((lmb.reserved.region j).base - size) align) (by omega)
      (value ▸ Align.dvd_down ..) fun _ _ unseen =>
        reserved.clear_below positive member (by omega) unseen
    have covered : ∀ c, Under lmb size align i j c →
        c ≤ (lmbAlignDown ((lmb.reserved.region j).base - size) align).toNat := by
      intro c candidate
      have high := candidate.high
      rw [value]
      exact Align.le_down candidate.aligned (by omega)
    generalize searchDown lmb.reserved (lmb.memory.region i).base size align
      (lmbAlignDown ((lmb.reserved.region j).base - size) align) = result at greatest ⊢
    cases result with
    | none =>
      intro c candidate
      exact greatest c candidate.aligned candidate.nonzero candidate.low (covered c candidate)
        candidate.clear
    | some found =>
      obtain ⟨nonzero, low, le', multiple, clear, highest⟩ := greatest
      refine ⟨⟨fun zero => nonzero (UInt32.toNat_inj.mp zero), multiple, low, by omega, clear⟩, ?_⟩
      intro c candidate
      by_contra above
      exact highest c candidate.aligned (by omega) (covered c candidate) candidate.clear

include memory in
/-- Where the first bases wrap and a reservation is seen there, the search finds the greatest base
that can be used below it, in every region that has one. -/
theorem findBase_under {j n : Nat} (bound : n ≤ lmb.memory.cnt)
    (met : ∀ i < n, ∀ base, Starts lmb size align maxAddr i base →
      lmbOverlapsRegion lmb.reserved base size = some j) :
    GreatestUnder lmb size align maxAddr j n (findBase lmb size align maxAddr n) := by
  induction n with
  | zero =>
    intro i inside
    omega
  | succ n ih =>
    have rest := ih (by omega) fun i inside => met i (by omega)
    -- a region without such bases leaves it to those below
    have skip : (∀ base, Starts lmb size align maxAddr n base →
        ∀ c, ¬Under lmb size align n j c) →
        GreatestUnder lmb size align maxAddr j (n + 1) (findBase lmb size align maxAddr n) := by
      intro empty
      generalize findBase lmb size align maxAddr n = result at rest ⊢
      cases result with
      | none =>
        intro i inside base starts c
        rcases Nat.lt_succ_iff_lt_or_eq.mp inside with less | rfl
        · exact rest i less base starts c
        · exact empty base starts c
      | some found =>
        obtain ⟨⟨i, inside, base, starts, greatest⟩, only⟩ := rest
        refine ⟨⟨i, by omega, base, starts, greatest⟩, ?_⟩
        intro i' inside' base' starts' b greatest'
        rcases Nat.lt_succ_iff_lt_or_eq.mp inside' with less | rfl
        · exact only i' less base' starts' b greatest'
        · exact absurd greatest'.1 (empty base' starts' b)
    rw [findBase]
    by_cases top : ∃ base, Starts lmb size align maxAddr n base
    · obtain ⟨base, starts⟩ := top
      have own := starts.search_under reserved positive power (met n (by omega) base starts)
      rw [starts.search]
      generalize searchDown lmb.reserved (lmb.memory.region n).base size align base = result
        at own ⊢
      cases result with
      | none => exact skip fun _ _ => own
      | some found =>
        refine ⟨⟨n, by omega, base, starts, own⟩, ?_⟩
        intro i inside base' _ b greatest
        -- regions below start below
        have lower : (lmb.memory.region i).lo ≤ (lmb.memory.region n).lo := by
          rcases Nat.lt_succ_iff_lt_or_eq.mp inside with less | rfl
          · exact (Nat.le_add_right _ _).trans (memory.ordered i n less (by omega))
          · exact Nat.le_refl _
        have wider : Under lmb size align i j found.toNat :=
          { own.1 with low := lower.trans own.1.low }
        have le := greatest.2 wider
        have narrower : Under lmb size align n j b := { greatest.1 with low := own.1.low.trans le }
        exact Nat.le_antisymm (own.2 narrower) le
    · rw [search_none (not_exists.mp top)]
      exact skip fun base starts => absurd ⟨base, starts⟩ top

end Found

/-! ## What the search does not see -/

section Seen

variable {lmb : LmbState} {size align maxAddr : UInt32} (memory : Sorted lmb.memory)
  (reserved : Sorted lmb.reserved) (positive : 0 < size.toNat)
  (power : align.toNat.isPowerOfTwo) (noBorrow : NoBorrow size maxAddr)
include memory positive power noBorrow

theorem Starts.spec {i : Nat} {base : UInt32} (inside : i < lmb.memory.cnt)
    (starts : Starts lmb size align maxAddr i base) :
    base.toNat + size.toNat ≤ ceiling (lmb.memory.region i) maxAddr ∧
      align.toNat ∣ base.toNat ∧ ∀ b, align.toNat ∣ b →
        b + size.toNat ≤ ceiling (lmb.memory.region i) maxAddr → b ≤ base.toNat := by
  have first := firstBase_spec positive power (memory.noWrap i inside) noBorrow
  rw [starts.first] at first
  obtain ⟨room, value⟩ := first
  have le := Align.down_le (ceiling (lmb.memory.region i) maxAddr - size.toNat) align.toNat
  refine ⟨by omega, value ▸ Align.dvd_down .., ?_⟩
  intro b multiple high
  rw [value]
  exact Align.le_down multiple (by omega)

omit positive power noBorrow memory in
theorem ceiling_le (region : LmbProperty) (maxAddr : UInt32) :
    ceiling region maxAddr ≤ region.hi := by
  unfold ceiling
  split <;> omega

include reserved in
/-- Where a reservation at a first base is not seen, none is seen at the first one of all, and there
is one too. -/
theorem seen_of_first
    (first : ∀ i base, FirstOf lmb size align maxAddr lmb.memory.cnt i base →
      lmbOverlapsRegion lmb.reserved base size = none →
      Clear lmb.reserved base.toNat size.toNat) : Seen lmb size align maxAddr := by
  intro i inside base start nonzero low unseen
  have starts : Starts lmb size align maxAddr i base := ⟨start, nonzero, low⟩
  obtain ⟨k, found, le, isFirst⟩ := firstOf_exists inside starts
  rcases Nat.eq_or_lt_of_le le with rfl | above
  · have same : found = base := Option.some.inj (isFirst.starts.first.symm.trans start)
    exact same ▸ first i found isFirst (same ▸ unseen)
  by_contra blind
  rw [reserved.clear_iff positive] at blind
  push Not at blind
  obtain ⟨j, member, under, past⟩ := blind
  -- the reservation reaches the end of the address space, and has all of the regions above
  have tested := List.find?_eq_none.mp unseen j (List.mem_range.mpr member)
  rw [lmbAddrsOverlap_iff] at tested
  have spec := (starts.spec memory positive power noBorrow inside).1
  have spec' := (isFirst.starts.spec memory positive power noBorrow isFirst.inside).1
  have ends := ceiling_le (lmb.memory.region i) maxAddr
  have ends' := ceiling_le (lmb.memory.region k) maxAddr
  have order := memory.ordered i k above isFirst.inside
  have start' : (lmb.memory.region k).lo ≤ found.toNat :=
    UInt32.le_iff_toNat_le.mp isFirst.starts.low
  have bound := found.toNat_lt
  have noWrap := reserved.noWrap j member
  have noWrap' := memory.noWrap k isFirst.inside
  rw [Nat.mod_eq_of_lt (by omega : base.toNat + size.toNat < 2 ^ 32)] at tested
  have top : (lmb.reserved.region j).hi = 2 ^ 32 := by omega
  have unseen' : lmbOverlapsRegion lmb.reserved found size = none := by
    cases result : lmbOverlapsRegion lmb.reserved found size with
    | none => rfl
    | some j' =>
      obtain ⟨member', under', short, -⟩ := reserved.met result
      rcases Nat.lt_trichotomy j' j with before | rfl | behind
      · have order' := reserved.ordered j' j before member
        omega
      · omega
      · have order' := reserved.ordered j j' behind member'
        have small : (lmb.reserved.region j').lo < 2 ^ 32 := (lmb.reserved.region j').base.toNat_lt
        omega
  have clear := (reserved.clear_iff positive _).mp (first k found isFirst unseen') j member
  omega

end Seen

end HrppBoot.Lmb
