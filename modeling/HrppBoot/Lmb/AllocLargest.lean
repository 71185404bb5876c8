import HrppBoot.Lmb.AllocSound

/-!
# The largest base

Where no base is taken by a comparison that wraps, `__lmb_alloc_base` returns the largest base that
can be used, and 0 only if there is none or the table of what is reserved is full. It does not
return when it runs off an empty table.
-/

namespace HrppBoot.Lmb

section Largest

variable (lmb : LmbState) (size align maxAddr : UInt32)

/-- What is returned is the largest base that can be used, or 0 where there is none or the table is
full. -/
def Largest : Prop :=
  ∃ base reserved, lmbAllocBase lmb size align maxAddr = some (base, reserved) ∧
    (base ≠ 0 → IsGreatest {b | Usable lmb size align maxAddr b} base.toNat) ∧
    (base = 0 → (∀ b, ¬Usable lmb size align maxAddr b) ∨ lmb.reserved.cnt = maxLmbRegions)

/-- No base is taken by a comparison that wraps, and an empty table is not run off. -/
structure Recorded : Prop where
  guarded : Guarded lmb size align maxAddr
  /-- The old entries of an empty table are not adjacent, or no base is looked at. -/
  onTable : lmb.reserved.cnt = 0 → lmbRegionsAdjacent lmb.reserved 0 1 ≠ 0 →
    ∀ i < lmb.memory.cnt, ∀ base, ¬Starts lmb size align maxAddr i base

end Largest

section Search

variable {lmb : LmbState} {size align maxAddr : UInt32}

theorem lmbAddRegion_full {rgn : LmbRegion} {base size : UInt32} (some : rgn.cnt ≠ 0)
    (takes : ¬Takes rgn base size) :
    maxLmbRegions ≤ rgn.cnt ∧ lmbAddRegion rgn base size = .some (-1, rgn) := by
  have full : maxLmbRegions ≤ rgn.cnt := by
    by_contra room
    exact takes ⟨fun none => absurd none some, .inl (by omega)⟩
  have joins : findNeighbour rgn.region base size 0 rgn.cnt = .none := by
    by_contra joins
    exact takes ⟨fun none => absurd none some, .inr joins⟩
  have many : ¬(rgn.cnt = 1 ∧ (rgn.region 0).size = 0) := by
    rintro ⟨one, -⟩
    rw [one] at full
    exact absurd full (by decide)
  refine ⟨full, ?_⟩
  rw [lmbAddRegion_filled base size some many, joins]
  dsimp only
  rw [insertRegion, if_pos full]

variable (memory : Sorted lmb.memory) (reserved : Sorted lmb.reserved) (positive : 0 < size.toNat)
  (power : align.toNat.isPowerOfTwo)
include memory reserved positive power

theorem none_usable (none : findBase lmb size align maxAddr lmb.memory.cnt = none) (b : Nat) :
    ¬Usable lmb size align maxAddr b := by
  intro usable
  have found := found_greatest memory reserved positive power usable.noBorrow
    fun i base isFirst unseen => by
      rw [isFirst.findBase_eq unseen] at none
      cases none
  rw [none] at found
  exact found b usable

/-- An allocation returns the largest base that can be used, exactly where no base is taken by a
comparison that wraps and an empty table is not run off. -/
theorem lmbAllocBase_largest_iff :
    Largest lmb size align maxAddr ↔ Recorded lmb size align maxAddr := by
  constructor
  · rintro ⟨base, after, returned, largest, -⟩
    refine ⟨guarded_of_usable memory reserved positive power ?_, ?_⟩
    · intro base' found nonzero takes
      obtain ⟨ret, after', added, done⟩ := (takes_iff ..).mp takes
      have same := (lmbAllocBase_found found added done).symm.trans returned
      rw [Option.some.injEq, Prod.mk.injEq] at same
      rw [same.1] at nonzero ⊢
      exact (largest nonzero).1
    · intro none touch i inside start starts
      obtain ⟨k, start', -, isFirst⟩ := firstOf_exists inside starts
      have unseen : lmbOverlapsRegion lmb.reserved start' size = .none := by
        rw [lmbOverlapsRegion, none]
        rfl
      rw [lmbAllocBase, isFirst.findBase_eq unseen] at returned
      dsimp only at returned
      rw [lmbAddRegion_empty _ _ none, if_pos touch] at returned
      cases returned
  · rintro ⟨guarded, onTable⟩
    cases found : findBase lmb size align maxAddr lmb.memory.cnt with
    | none =>
      refine ⟨0, lmb.reserved, by rw [lmbAllocBase, found], fun nonzero => absurd rfl nonzero, ?_⟩
      exact fun _ => .inl (none_usable memory reserved positive power found)
    | some base =>
      by_cases takes : Takes lmb.reserved base (lmbAlignUp size align)
      · obtain ⟨ret, after, added, done⟩ := (takes_iff ..).mp takes
        have greatest := guarded.greatest memory reserved positive power found takes
        refine ⟨base, after, lmbAllocBase_found found added done, fun _ => greatest, ?_⟩
        intro zero
        exact absurd (by rw [zero, UInt32.toNat_zero]) greatest.1.nonzero
      · have some : lmb.reserved.cnt ≠ 0 := by
          intro none
          obtain ⟨i, inside, start, starts⟩ := starts_of_findBase found
          refine takes ⟨fun _ => ?_, .inl (by rw [none]; decide)⟩
          by_contra touch
          exact onTable none touch i inside start starts
        obtain ⟨full, failed⟩ := lmbAddRegion_full some takes
        refine ⟨0, lmb.reserved, ?_, fun nonzero => absurd rfl nonzero,
          fun _ => .inr (Nat.le_antisymm reserved.bound full)⟩
        rw [lmbAllocBase, found]
        dsimp only
        rw [failed]
        rfl

end Search

/-- Of 256 MiB, 8 KiB are allocated as high as the limit of 1 MiB admits. -/
theorem lmbAllocBase_largest_low : Largest unused 0x2000 0x1000 0x100000 := by
  refine (lmbAllocBase_largest_iff sorted_memory sorted_reserved (by decide) ⟨12, rfl⟩).mpr
    ⟨⟨fun _ _ _ _ _ => ⟨.inr (by decide), unused_clear _ _⟩, fun borrow => ?_⟩, ?_⟩
  · exact absurd (.inr (by decide)) borrow
  · exact fun none => absurd none (by decide)

/-- Below 4 KiB, the base that is returned for 8 KiB cannot be used. -/
theorem lmbAllocBase_not_largest :
    ¬∀ (lmb : LmbState) (size align maxAddr : UInt32), Sorted lmb.memory → Sorted lmb.reserved →
      (∀ i < lmb.memory.cnt, (lmb.memory.region i).hi ≤ 2 ^ 31) →
      (∀ i < lmb.reserved.cnt, (lmb.reserved.region i).hi ≤ 2 ^ 31) →
      0 < size.toNat → align.toNat.isPowerOfTwo → Largest lmb size align maxAddr := by
  intro claim
  have low : (⟨0, 0x10000000⟩ : LmbProperty).hi ≤ 2 ^ 31 := by decide
  obtain ⟨base, after, returned, largest, -⟩ := claim unused 0x2000 0x1000 0x1000 sorted_memory
    sorted_reserved (fun _ _ => low) (fun _ _ => Nat.zero_le _) (by decide) ⟨12, rfl⟩
  have first : FirstOf unused 0x2000 0x1000 0x1000 1 0 0xfffff000 :=
    unused_first (by decide) (by decide)
  have wrapped : lmbAllocBase unused 0x2000 0x1000 0x1000 =
      some (0xfffff000, ⟨1, Function.update unused.reserved.region 0 ⟨0xfffff000, 0x2000⟩⟩) :=
    lmbAllocBase_found (first.findBase_eq (by decide)) rfl (by decide)
  rw [wrapped, Option.some.injEq, Prod.mk.injEq] at returned
  have usable := (largest (by rw [← returned.1]; decide)).1
  rw [← returned.1] at usable
  exact absurd (usable.limit (by decide)) (by decide)

end HrppBoot.Lmb
