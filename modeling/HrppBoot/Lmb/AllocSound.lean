import HrppBoot.Lmb.AllocProbe

/-!
# What an allocation returns

A first candidate is computed modulo the address space, and so is the test whether a reservation
overlaps it. With a limit below the size the first candidate wraps, and at the top of the address
space the test sees nothing. `Guarded` says where no base is taken that way, and `Lasting` where the
base that is taken is reserved then. An allocation is sound exactly where both hold.
-/

namespace HrppBoot.Lmb

section Guarded

variable (lmb : LmbState) (size align maxAddr : UInt32)

/-- No base is taken by a comparison that wraps. -/
structure Guarded : Prop where
  /-- Where no reservation is seen at the first base, and the table can take it, it does not come
  from below 0, and there is none. -/
  first : ∀ i base, FirstOf lmb size align maxAddr lmb.memory.cnt i base →
    lmbOverlapsRegion lmb.reserved base size = none →
    Takes lmb.reserved base (lmbAlignUp size align) →
    NoBorrow size maxAddr ∧ Clear lmb.reserved base.toNat size.toNat
  /-- Where one is seen at a base that comes from below 0, the table can take none below. -/
  under : ¬NoBorrow size maxAddr → ∀ i < lmb.memory.cnt, ∀ base j,
    Starts lmb size align maxAddr i base → lmbOverlapsRegion lmb.reserved base size = some j →
    ∀ b : UInt32, IsGreatest {c | Under lmb size align i j c} b.toNat →
      ¬Takes lmb.reserved b (lmbAlignUp size align)

/-- A base that is returned can be used, and its addresses are reserved then. -/
def Sound : Prop :=
  ∀ base reserved, lmbAllocBase lmb size align maxAddr = some (base, reserved) → base ≠ 0 →
    Usable lmb size align maxAddr base.toNat ∧ ∀ a : UInt32, base.toNat ≤ a.toNat →
      a.toNat < base.toNat + size.toNat → lmbIsReserved reserved a = true

end Guarded

/-! ## The size that is reserved -/

section Rounded

variable {size align : UInt32} (power : align.toNat.isPowerOfTwo) {b : Nat} (nonzero : b ≠ 0)
  (aligned : align.toNat ∣ b) (top : b + size.toNat ≤ 2 ^ 32)
include power nonzero aligned top

theorem toNat_rounded : (lmbAlignUp size align).toNat = Align.up size.toNat align.toNat := by
  have positive := Nat.pos_of_isPowerOfTwo power
  have least := Nat.le_of_dvd (Nat.pos_of_ne_zero nonzero) aligned
  have one : (1 : UInt32) ≤ align := by
    rw [UInt32.le_iff_toNat_le, UInt32.toNat_one]
    exact positive
  rw [lmbAlignUp, Align.toNat_and_not_pred power, UInt32.toNat_add,
    UInt32.toNat_sub_of_le _ _ one, UInt32.toNat_one, Nat.mod_eq_of_lt (by omega)]
  rfl

theorem rounded_spec : size.toNat ≤ (lmbAlignUp size align).toNat ∧
    (lmbAlignUp size align).toNat < size.toNat + align.toNat ∧
    (lmbAlignUp size align).toNat < size.toNat + b ∧
    b + (lmbAlignUp size align).toNat ≤ 2 ^ 32 := by
  have positive := Nat.pos_of_isPowerOfTwo power
  have least := Nat.le_of_dvd (Nat.pos_of_ne_zero nonzero) aligned
  have low := Align.le_up size.toNat positive
  have high := Align.up_lt_add size.toNat positive
  have fits := Align.up_le positive
    (Nat.dvd_sub (Align.dvd_words power) aligned) (show size.toNat ≤ 2 ^ 32 - b by omega)
  rw [toNat_rounded power nonzero aligned top]
  omega

theorem le_of_top (reach : b + (lmbAlignUp size align).toNat = 2 ^ 32) {c : Nat}
    (multiple : align.toNat ∣ c) (high : c + size.toNat ≤ 2 ^ 32) : c ≤ b := by
  have positive := Nat.pos_of_isPowerOfTwo power
  obtain ⟨-, short, -⟩ := rounded_spec power nonzero aligned top
  by_contra above
  have apart := Nat.le_of_dvd (by omega) (Nat.dvd_sub multiple aligned)
  omega

end Rounded

/-! ## Allocations -/

section Alloc

variable {lmb : LmbState} {size align maxAddr : UInt32}

variable {base : UInt32}

theorem lmbAllocBase_found {ret : Int} {after : LmbRegion}
    (found : findBase lmb size align maxAddr lmb.memory.cnt = some base)
    (added : lmbAddRegion lmb.reserved base (lmbAlignUp size align) = some (ret, after))
    (done : ¬ret < 0) : lmbAllocBase lmb size align maxAddr = some (base, after) := by
  rw [lmbAllocBase, found]
  dsimp only
  rw [added, Option.map_some, if_neg done]

theorem lmbAllocBase_returned {after : LmbRegion}
    (returned : lmbAllocBase lmb size align maxAddr = some (base, after)) (nonzero : base ≠ 0) :
    findBase lmb size align maxAddr lmb.memory.cnt = some base ∧
      ∃ ret, lmbAddRegion lmb.reserved base (lmbAlignUp size align) = some (ret, after) ∧
        ¬ret < 0 := by
  rw [lmbAllocBase] at returned
  cases found : findBase lmb size align maxAddr lmb.memory.cnt with
  | none =>
    rw [found, Option.some.injEq, Prod.mk.injEq] at returned
    exact absurd returned.1.symm nonzero
  | some start =>
    rw [found, Option.map_eq_some_iff] at returned
    obtain ⟨⟨ret, after'⟩, added, outcome⟩ := returned
    dsimp only at outcome
    by_cases failed : ret < 0
    · rw [if_pos failed, Prod.mk.injEq] at outcome
      exact absurd outcome.1.symm nonzero
    · rw [if_neg failed, Prod.mk.injEq] at outcome
      obtain ⟨rfl, rfl⟩ := outcome
      exact ⟨rfl, ret, added, failed⟩

variable (memory : Sorted lmb.memory) (reserved : Sorted lmb.reserved) (positive : 0 < size.toNat)
  (power : align.toNat.isPowerOfTwo)
include memory

theorem Usable.noWrap {b : Nat} (usable : Usable lmb size align maxAddr b) :
    b + size.toNat ≤ 2 ^ 32 := by
  obtain ⟨i, inside, -, high⟩ := usable.inside
  exact high.trans (memory.noWrap i inside)

omit memory in
theorem Usable.noBorrow {b : Nat} (usable : Usable lmb size align maxAddr b) :
    NoBorrow size maxAddr := by
  by_cases anywhere : maxAddr = 0
  · exact .inl anywhere
  · refine .inr (UInt32.le_iff_toNat_le.mpr ?_)
    have limit := usable.limit anywhere
    omega

include reserved positive power

theorem found_greatest (noBorrow : NoBorrow size maxAddr)
    (first : ∀ i base, FirstOf lmb size align maxAddr lmb.memory.cnt i base →
      lmbOverlapsRegion lmb.reserved base size = none →
      Clear lmb.reserved base.toNat size.toNat) :
    match findBase lmb size align maxAddr lmb.memory.cnt with
    | some found => IsGreatest {b | Usable lmb size align maxAddr b} found.toNat
    | none => ∀ b, ¬Usable lmb size align maxAddr b := by
  have greatest := findBase_greatest memory reserved positive power noBorrow
    (seen_of_first memory reserved positive power noBorrow first) (Nat.le_refl _)
  generalize findBase lmb size align maxAddr lmb.memory.cnt = result at greatest ⊢
  cases result with
  | none => exact fun b usable => greatest b ((usable_iff b).mp usable)
  | some found =>
    exact ⟨(usable_iff _).mpr greatest.1, fun b usable => greatest.2 b ((usable_iff b).mp usable)⟩

theorem Guarded.greatest (guarded : Guarded lmb size align maxAddr)
    (found : findBase lmb size align maxAddr lmb.memory.cnt = some base)
    (takes : Takes lmb.reserved base (lmbAlignUp size align)) :
    IsGreatest {b | Usable lmb size align maxAddr b} base.toNat := by
  -- where nothing is seen at the first base, this is the one that is found
  have first : ∀ i start, FirstOf lmb size align maxAddr lmb.memory.cnt i start →
      lmbOverlapsRegion lmb.reserved start size = none →
      NoBorrow size maxAddr ∧ Clear lmb.reserved start.toNat size.toNat := by
    intro i start isFirst unseen
    have same : start = base := Option.some.inj ((isFirst.findBase_eq unseen).symm.trans found)
    exact guarded.first i start isFirst unseen (same ▸ takes)
  by_cases noBorrow : NoBorrow size maxAddr
  · have greatest := found_greatest memory reserved positive power noBorrow
      fun i start isFirst unseen => (first i start isFirst unseen).2
    rwa [found] at greatest
  · obtain ⟨i, inside, start, starts⟩ := starts_of_findBase found
    obtain ⟨k, start', -, isFirst⟩ := firstOf_exists inside starts
    cases met : lmbOverlapsRegion lmb.reserved start' size with
    | none => exact absurd (first k start' isFirst met).1 noBorrow
    | some j =>
      have under := findBase_under memory reserved positive power (Nat.le_refl _)
        fun i _ base starts => starts.borrow noBorrow isFirst.starts ▸ met
      rw [found] at under
      obtain ⟨⟨i', inside', start'', starts', greatest⟩, -⟩ := under
      refine absurd takes (guarded.under noBorrow i' inside' start'' j starts' ?_ base greatest)
      exact starts'.borrow noBorrow isFirst.starts ▸ met

theorem guarded_of_usable
    (usable : ∀ base, findBase lmb size align maxAddr lmb.memory.cnt = some base → base ≠ 0 →
      Takes lmb.reserved base (lmbAlignUp size align) →
      Usable lmb size align maxAddr base.toNat) : Guarded lmb size align maxAddr where
  first := by
    intro i base isFirst unseen takes
    have found := usable base (isFirst.findBase_eq unseen) isFirst.starts.nonzero takes
    exact ⟨found.noBorrow, found.clear⟩
  under := by
    intro borrow i inside base j starts met b greatest takes
    have under := findBase_under memory reserved positive power (Nat.le_refl _)
      fun i _ base' starts' => starts'.borrow borrow starts ▸ met
    cases found : findBase lmb size align maxAddr lmb.memory.cnt with
    | none =>
      rw [found] at under
      exact under i inside base starts _ greatest.1
    | some other =>
      rw [found] at under
      have same : b = other := UInt32.toNat_inj.mp (under.2 i inside base starts _ greatest)
      have nonzero : b ≠ 0 := fun zero => greatest.1.nonzero (by rw [zero, UInt32.toNat_zero])
      exact borrow (usable b (same ▸ found) nonzero takes).noBorrow

/-- A base that can be used and ends at the top of the address space, rounded up, is found. -/
theorem found_top (usable : Usable lmb size align maxAddr base.toNat)
    (top : base.toNat + (lmbAlignUp size align).toNat = 2 ^ 32) :
    findBase lmb size align maxAddr lmb.memory.cnt = some base := by
  have noWrap := usable.noWrap memory
  have highest : ∀ c, align.toNat ∣ c → c + size.toNat ≤ 2 ^ 32 → c ≤ base.toNat := fun c =>
    le_of_top power usable.nonzero usable.aligned noWrap top
  obtain ⟨i, inside, low, high⟩ := ((usable_iff _).mp usable).inside
  have nonzero : base ≠ 0 := fun zero => usable.nonzero (by rw [zero, UInt32.toNat_zero])
  have ends := ceiling_le (lmb.memory.region i) maxAddr
  have ends' := memory.noWrap i inside
  have spec := firstBase_spec positive power ends' usable.noBorrow
  have starts : Starts lmb size align maxAddr i base := by
    cases first : firstBase (lmb.memory.region i) size align maxAddr with
    | none =>
      rw [first] at spec
      dsimp only at spec
      omega
    | some start =>
      rw [first] at spec
      obtain ⟨room, value⟩ := spec
      have le := Align.down_le (ceiling (lmb.memory.region i) maxAddr - size.toNat) align.toNat
      have ge := Align.le_down usable.aligned
        (show base.toNat ≤ ceiling (lmb.memory.region i) maxAddr - size.toNat by omega)
      have under := highest start.toNat (value ▸ Align.dvd_down ..) (by omega)
      have same : start = base := UInt32.toNat_inj.mp (by omega)
      exact ⟨same ▸ first, nonzero, UInt32.le_iff_toNat_le.mpr low⟩
  have isFirst : FirstOf lmb size align maxAddr lmb.memory.cnt i base := by
    refine ⟨inside, starts, ?_⟩
    intro k above below other starts'
    have order := memory.ordered i k above below
    have start : (lmb.memory.region k).lo ≤ other.toNat :=
      UInt32.le_iff_toNat_le.mp starts'.low
    obtain ⟨high', multiple, -⟩ := starts'.spec memory positive power usable.noBorrow below
    have ends'' := ceiling_le (lmb.memory.region k) maxAddr
    have bound := memory.noWrap k below
    have under := highest other.toNat multiple (by omega)
    omega
  apply isFirst.findBase_eq
  cases met : lmbOverlapsRegion lmb.reserved base size with
  | none => rfl
  | some j =>
    obtain ⟨member, under, -, past⟩ := reserved.met met
    have apart := (reserved.clear_iff positive _).mp usable.clear j member
    omega

end Alloc

/-- What keeps an allocation sound: no base is taken by a comparison that wraps, and the greatest
base that can be used keeps its addresses when it is added. -/
structure Safe (lmb : LmbState) (size align maxAddr : UInt32) : Prop where
  guarded : Guarded lmb size align maxAddr
  lasting : ∀ b, IsGreatest {b | Usable lmb size align maxAddr b} b →
    Lasting lmb.reserved b size.toNat (lmbAlignUp size align).toNat

section Sound

variable {lmb : LmbState} {size align maxAddr : UInt32} (memory : Sorted lmb.memory)
  (reserved : Sorted lmb.reserved) (positive : 0 < size.toNat)
  (power : align.toNat.isPowerOfTwo)
include memory reserved positive power

theorem reserved_iff {base : UInt32} (usable : Usable lmb size align maxAddr base.toNat) {ret : Int}
    {after : LmbRegion}
    (added : lmbAddRegion lmb.reserved base (lmbAlignUp size align) = some (ret, after))
    (done : ¬ret < 0) :
    (∀ a : UInt32, base.toNat ≤ a.toNat → a.toNat < base.toNat + size.toNat →
      lmbIsReserved after a = true) ↔
        Lasting lmb.reserved base.toNat size.toNat (lmbAlignUp size align).toNat := by
  have nonzero : base ≠ 0 := fun zero => usable.nonzero (by rw [zero, UInt32.toNat_zero])
  obtain ⟨fits, -, short, top⟩ :=
    rounded_spec power usable.nonzero usable.aligned (usable.noWrap memory)
  exact lmbAddRegion_lasting reserved nonzero positive fits usable.clear short top added done

theorem Sound.lasting (sound : Sound lmb size align maxAddr) {base : UInt32}
    (usable : Usable lmb size align maxAddr base.toNat)
    (found : findBase lmb size align maxAddr lmb.memory.cnt = some base)
    (takes : Takes lmb.reserved base (lmbAlignUp size align)) :
    Lasting lmb.reserved base.toNat size.toNat (lmbAlignUp size align).toNat := by
  have nonzero : base ≠ 0 := fun zero => usable.nonzero (by rw [zero, UInt32.toNat_zero])
  obtain ⟨ret, after, added, done⟩ := (takes_iff ..).mp takes
  rw [← reserved_iff memory reserved positive power usable added done]
  exact (sound base after (lmbAllocBase_found found added done) nonzero).2

/-- An allocation is sound exactly where no base is taken by a comparison that wraps, and the base
that is taken keeps its addresses. -/
theorem lmbAllocBase_sound_iff : Sound lmb size align maxAddr ↔ Safe lmb size align maxAddr := by
  constructor
  · intro sound
    have guarded : Guarded lmb size align maxAddr := by
      apply guarded_of_usable memory reserved positive power
      intro base found nonzero takes
      obtain ⟨ret, after, added, done⟩ := (takes_iff ..).mp takes
      exact (sound base after (lmbAllocBase_found found added done) nonzero).1
    refine ⟨guarded, ?_⟩
    intro b greatest
    have usable : Usable lmb size align maxAddr b := greatest.1
    have noWrap := usable.noWrap memory
    obtain ⟨base, rfl⟩ : ∃ base : UInt32, base.toNat = b :=
      ⟨UInt32.ofNat b, by rw [UInt32.toNat_ofNat']; omega⟩
    have nonzero : base ≠ 0 := fun zero => usable.nonzero (by rw [zero, UInt32.toNat_zero])
    -- a table with room takes every base, so the first one hides nothing
    have roomy : (∀ other, Takes lmb.reserved other (lmbAlignUp size align)) →
        Lasting lmb.reserved base.toNat size.toNat (lmbAlignUp size align).toNat := by
      intro takes
      apply sound.lasting memory reserved positive power usable _ (takes base)
      have found := found_greatest memory reserved positive power usable.noBorrow
        fun i start isFirst unseen => (guarded.first i start isFirst unseen (takes start)).2
      generalize findBase lmb size align maxAddr lmb.memory.cnt = result at found ⊢
      cases result with
      | none => exact absurd usable (found _)
      | some other =>
        rw [UInt32.toNat_inj.mp (greatest.unique found)]
    refine ⟨?_, ?_, ?_⟩
    · intro none apart
      exact (roomy fun _ => ⟨fun _ => apart, .inl (by rw [none]; decide)⟩).empty none apart
    · intro some start filled top
      have takes : Takes lmb.reserved base (lmbAlignUp size align) := by
        refine ⟨fun none => absurd none (by omega), .inr ?_⟩
        rw [bottom_joins nonzero some start top]
        intro same
        cases same
      have found := found_top memory reserved positive power usable top
      have lasting := sound.lasting memory reserved positive power usable found takes
      exact lasting.bottom some start filled top
    · intro two
      exact (roomy fun _ => ⟨fun none => absurd none (by omega), .inl (by rw [two]; decide)⟩).around
        two
  · intro safe base after returned nonzero
    obtain ⟨found, ret, added, done⟩ := lmbAllocBase_returned returned nonzero
    have greatest := safe.guarded.greatest memory reserved positive power found
      ((takes_iff ..).mpr ⟨ret, after, added, done⟩)
    exact ⟨greatest.1, (reserved_iff memory reserved positive power greatest.1 added done).mpr
      (safe.lasting _ greatest)⟩

end Sound

/-! ## An allocation below a limit -/

/-- A table with one region. -/
def single (region : LmbProperty) : LmbRegion := ⟨1, fun _ => region⟩

theorem sorted_single {region : LmbProperty} (noWrap : region.hi ≤ 2 ^ 32)
    (solid : region.lo < region.hi ∨ region = ⟨0, 0⟩) : Sorted (single region) where
  bound := show 1 ≤ 8 by decide
  noWrap := fun _ _ => noWrap
  solid := fun _ _ => solid.imp_right fun dummy => ⟨rfl, dummy⟩
  ordered := fun i j less inside => by
    have one : j < 1 := inside
    omega

/-- Of 256 MiB of memory nothing is reserved. -/
def unused : LmbState := ⟨single ⟨0, 0x10000000⟩, single ⟨0, 0⟩⟩

theorem sorted_memory : Sorted unused.memory := sorted_single (by decide) (.inl (by decide))

theorem sorted_reserved : Sorted unused.reserved := sorted_single (by decide) (.inr rfl)

theorem unused_clear (b size : Nat) : Clear unused.reserved b size := by
  rintro a - - ⟨i, -, low, high⟩
  exact absurd low (Nat.not_le.mpr high)

theorem unused_first {size align maxAddr base : UInt32}
    (first : firstBase ⟨0, 0x10000000⟩ size align maxAddr = some base) (nonzero : base ≠ 0) :
    FirstOf unused size align maxAddr 1 0 base := by
  refine ⟨Nat.one_pos, ⟨first, nonzero, ?_⟩, fun k above below => by omega⟩
  rw [UInt32.le_iff_toNat_le]
  exact Nat.zero_le _

/-- Below 1 MiB, 8 KiB are allocated. -/
theorem lmbAllocBase_sound_low : Sound unused 0x2000 0x1000 0x100000 := by
  refine (lmbAllocBase_sound_iff sorted_memory sorted_reserved (by decide) ⟨12, rfl⟩).mpr ⟨?_, ?_⟩
  · exact ⟨fun _ _ _ _ _ => ⟨.inr (by decide), unused_clear _ _⟩,
      fun borrow => absurd (.inr (by decide)) borrow⟩
  · intro b _
    exact ⟨fun none => absurd none (by decide), fun _ _ filled => absurd filled (by decide),
      fun two => absurd two (by decide)⟩

/-- Below 4 KiB, 8 KiB are allocated at the top of the address space. -/
theorem lmbAllocBase_unsound :
    ¬∀ (lmb : LmbState) (size align maxAddr : UInt32), Sorted lmb.memory → Sorted lmb.reserved →
      0 < size.toNat → align.toNat.isPowerOfTwo → Sound lmb size align maxAddr := by
  intro claim
  have first : FirstOf unused 0x2000 0x1000 0x1000 1 0 0xfffff000 :=
    unused_first (by decide) (by decide)
  have returned : lmbAllocBase unused 0x2000 0x1000 0x1000 =
      some (0xfffff000, ⟨1, Function.update unused.reserved.region 0 ⟨0xfffff000, 0x2000⟩⟩) :=
    lmbAllocBase_found (first.findBase_eq (by decide)) rfl (by decide)
  have sound := claim unused 0x2000 0x1000 0x1000 sorted_memory sorted_reserved (by decide)
    ⟨12, rfl⟩ _ _ returned (by decide)
  exact absurd (sound.1.limit (by decide)) (by decide)

end HrppBoot.Lmb
