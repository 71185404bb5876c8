import HrppBoot.Flash.NandSpan

/-!
# The sizing pass

`check_skip_len` finds the span of the data if the bytes of the good blocks it looks at fit in 32
bits, and refuses the data otherwise.
-/

namespace HrppBoot.Flash

namespace NandInfo

variable {nand : NandInfo} {p x used length n : Nat} {ret : Bool}

theorem erasesize_dvd : nand.erasesize ∣ 2 ^ 32 := by
  obtain ⟨k, small, same⟩ := nand.erasesize_pow
  rw [same]
  exact Nat.pow_dvd_pow 2 (Nat.le_of_lt small)

theorem restOfBlock_dvd : nand.erasesize ∣ p + nand.restOfBlock p := by
  have small := Nat.mod_lt p nand.erasesize_pos
  have split := Nat.div_add_mod p nand.erasesize
  refine ⟨p / nand.erasesize + 1, ?_⟩
  rw [Nat.mul_add, Nat.mul_one]
  unfold restOfBlock blockOffset
  omega

theorem restOfBlock_le : nand.restOfBlock p ≤ nand.erasesize := Nat.sub_le _ _

theorem restOfBlock_of_dvd (starts : nand.erasesize ∣ p) : nand.restOfBlock p = nand.erasesize := by
  rw [restOfBlock, blockOffset, Nat.mod_eq_zero_of_dvd starts, Nat.sub_zero]

theorem restOfBlock_add {k : Nat} (inside : k < nand.restOfBlock p) :
    nand.restOfBlock (p + k) = nand.restOfBlock p - k := by
  have same := blockStart_eq (Nat.le_add_right p k) (Nat.add_lt_add_left inside p)
  have small := Nat.mod_lt p nand.erasesize_pos
  have low := Nat.mod_le p nand.erasesize
  have high := Nat.mod_le (p + k) nand.erasesize
  unfold restOfBlock blockOffset blockStart at *
  omega

theorem restOfBlock_inside (inside : p < nand.size) : p + nand.restOfBlock p ≤ nand.size := by
  obtain ⟨blocks, same⟩ := nand.blocks
  have small := Nat.mod_lt p nand.erasesize_pos
  have split := Nat.div_add_mod p nand.erasesize
  have fewer : p / nand.erasesize < blocks :=
    Nat.div_lt_of_lt_mul (by rwa [← same])
  have most : nand.erasesize * (p / nand.erasesize + 1) ≤ nand.erasesize * blocks :=
    Nat.mul_le_mul_left _ fewer
  rw [Nat.mul_add, Nat.mul_one] at most
  unfold restOfBlock blockOffset
  omega

theorem blockIsbad_blockStart (inside : p < nand.size) :
    nand.blockIsbad (nand.blockStart p) = !nand.good p := by
  have low : nand.blockStart p ≤ p := Nat.sub_le _ _
  rw [blockIsbad, if_neg (by omega), good, Bool.not_not]

theorem checkSkipLoop_turn (more : x < length) (inside : p < nand.size) :
    nand.checkSkipLoop length p x used ret =
      nand.checkSkipLoop length (p + nand.restOfBlock p)
        (if nand.good p then (x + nand.restOfBlock p) % 2 ^ 32 else x)
        ((used + nand.restOfBlock p) % 2 ^ 32) (if nand.good p then ret else true) := by
  rw [checkSkipLoop, if_pos more, if_neg (Nat.not_le.mpr inside)]
  dsimp only
  rw [blockIsbad_blockStart inside]
  cases nand.good p <;> rfl

/-- The bytes behind an address in its block. -/
def behind (nand : NandInfo) (p : Nat) : Nat := nand.restOfBlock p - 1

/-- A byte in a bad block lies in a span. -/
def HasBad (nand : NandInfo) (offset n : Nat) : Prop :=
  ∃ q, offset ≤ q ∧ q < offset + n ∧ nand.good q = false

theorem hasBad_of_bad (some : 0 < n) (bad : nand.good p = false) : nand.HasBad p n :=
  ⟨p, Nat.le_refl p, by omega, bad⟩

theorem hasBad_skip (good : nand.good p = true) (inside : nand.restOfBlock p ≤ n) :
    nand.HasBad p n ↔
      nand.HasBad (p + nand.restOfBlock p) (n - nand.restOfBlock p) := by
  constructor
  · intro ⟨q, low, high, bad⟩
    refine ⟨q, ?_, by omega, bad⟩
    by_contra first
    rw [good_eq low (by omega), good] at bad
    cases bad
  · intro ⟨q, low, high, bad⟩
    exact ⟨q, by omega, by omega, bad⟩

theorem not_hasBad (good : nand.good p = true) (inside : n ≤ nand.restOfBlock p) :
    ¬nand.HasBad p n := by
  intro ⟨q, low, high, bad⟩
  rw [good_eq low (by omega), good] at bad
  cases bad

/-- The pass finds the end of the block in which a span ends, and whether bad blocks lie before. -/
theorem checkSkipLoop_fits {rest : Nat} (span : nand.IsSpan p rest n) (some : 0 < rest)
    (counted : x + rest = length) (inside : p + n ≤ nand.size)
    (fits : length + nand.behind (p + n - 1) < 2 ^ 32) (small : used < 2 ^ 32) :
    ∃ bad, nand.checkSkipLoop length p x used ret =
        Option.some (length + nand.behind (p + n - 1),
          (used + n + nand.behind (p + n - 1)) % 2 ^ 32, bad) ∧
      (bad = true ↔ ret = true ∨ nand.HasBad p n) := by
  induction n using Nat.strong_induction_on generalizing p x used rest ret with
  | _ n ih =>
    have positive := span.positive some
    have starts : p < nand.size := by omega
    rw [checkSkipLoop_turn (by omega) starts]
    cases isGood : nand.good p with
    | false =>
      obtain ⟨beyond, next⟩ := span.skip some isGood
      have last : p + nand.restOfBlock p + (n - nand.restOfBlock p) = p + n := by omega
      have pos := @restOfBlock_pos nand p
      obtain ⟨bad, run, found⟩ := @ih (n - nand.restOfBlock p) (by omega) _ x
        ((used + nand.restOfBlock p) % 2 ^ 32) true rest next some counted (by omega)
        (by rw [last]; exact fits) (Nat.mod_lt _ (by decide))
      refine ⟨bad, ?_, ?_⟩
      · rw [last] at run
        rw [if_neg Bool.false_ne_true, if_neg Bool.false_ne_true, run]
        congr 3
        omega
      · exact iff_of_true (found.mpr (.inl rfl)) (.inr (hasBad_of_bad positive isGood))
    | true =>
      rw [if_pos rfl, if_pos rfl]
      rcases span.take some isGood with ⟨within, same⟩ | ⟨beyond, further, next⟩
      · subst same
        have atLast : nand.behind (p + n - 1) = nand.restOfBlock p - n := by
          rw [behind, Nat.add_sub_assoc positive, restOfBlock_add (by omega)]
          omega
        rw [atLast] at fits ⊢
        have whole : x + nand.restOfBlock p = length + (nand.restOfBlock p - n) := by omega
        rw [whole, Nat.mod_eq_of_lt fits, checkSkipLoop, if_neg (by omega)]
        refine ⟨ret, ?_, ?_⟩
        · congr 3
          omega
        · exact (or_iff_left (not_hasBad isGood within)).symm
      · have last : p + nand.restOfBlock p + (n - nand.restOfBlock p) = p + n := by omega
        have pos := @restOfBlock_pos nand p
        rw [Nat.mod_eq_of_lt (show x + nand.restOfBlock p < 2 ^ 32 by omega)]
        obtain ⟨bad, run, found⟩ := @ih (n - nand.restOfBlock p) (by omega) _
          (x + nand.restOfBlock p) ((used + nand.restOfBlock p) % 2 ^ 32) ret _ next (by omega)
          (by omega) (by omega) (by rw [last]; exact fits) (Nat.mod_lt _ (by decide))
        refine ⟨bad, ?_, ?_⟩
        · rw [last] at run
          rw [run]
          congr 3
          omega
        · rw [found, hasBad_skip isGood (Nat.le_of_lt further)]

theorem checkSkipLoop_wrapped {most : Nat} (starts : nand.erasesize ∣ p)
    (same : x % nand.erasesize = most % nand.erasesize) (wraps : 2 ^ 32 ≤ most)
    (less : most < length + nand.erasesize) (small : x < 2 ^ 32) :
    nand.checkSkipLoop length p x used ret = none := by
  have positive := nand.erasesize_pos
  have more (y : Nat) (low : y < 2 ^ 32) (equal : y % nand.erasesize = most % nand.erasesize) :
      y < length := by
    by_contra high
    have gap : nand.erasesize ∣ most - y :=
      Nat.dvd_of_mod_eq_zero (Nat.sub_mod_eq_zero_of_mod_eq equal.symm)
    have := Nat.le_of_dvd (by omega) gap
    omega
  induction rest : nand.size - p using Nat.strong_induction_on generalizing p x used ret with
  | _ rest' ih =>
    by_cases ended : nand.size ≤ p
    · rw [checkSkipLoop, if_pos (more x small same), if_pos ended]
    · rw [checkSkipLoop_turn (more x small same) (by omega), restOfBlock_of_dvd starts]
      refine ih (nand.size - (p + nand.erasesize)) (by omega)
        (Nat.dvd_add starts (Nat.dvd_refl _)) ?_ ?_ rfl
      · cases nand.good p with
        | false => exact same
        | true =>
          rw [if_pos rfl, Nat.mod_mod_of_dvd _ erasesize_dvd, Nat.add_mod_right]
          exact same
      · cases nand.good p with
        | false => exact small
        | true => exact Nat.mod_lt _ (by decide)

/-- The pass refuses a span whose last block does not fit in 32 bits. -/
theorem checkSkipLoop_wraps {rest : Nat} (span : nand.IsSpan p rest n) (some : 0 < rest)
    (counted : x + rest = length) (inside : p + n ≤ nand.size) (short : length < 2 ^ 32)
    (wraps : 2 ^ 32 ≤ length + nand.behind (p + n - 1)) :
    nand.checkSkipLoop length p x used ret = none := by
  induction n using Nat.strong_induction_on generalizing p x used rest ret with
  | _ n ih =>
    have positive := span.positive some
    have pos := @restOfBlock_pos nand p
    rw [checkSkipLoop_turn (by omega) (by omega)]
    cases isGood : nand.good p with
    | false =>
      obtain ⟨beyond, next⟩ := span.skip some isGood
      have last : p + nand.restOfBlock p + (n - nand.restOfBlock p) = p + n := by omega
      exact ih (n - nand.restOfBlock p) (by omega) next some counted (by omega)
        (by rw [last]; exact wraps)
    | true =>
      rw [if_pos rfl]
      rcases span.take some isGood with ⟨within, same⟩ | ⟨beyond, further, next⟩
      · subst same
        have atLast : nand.behind (p + n - 1) = nand.restOfBlock p - n := by
          rw [behind, Nat.add_sub_assoc positive, restOfBlock_add (by omega)]
          omega
        have most := @restOfBlock_le nand p
        rw [atLast] at wraps
        exact checkSkipLoop_wrapped restOfBlock_dvd
          (Nat.mod_mod_of_dvd (x + nand.restOfBlock p) erasesize_dvd) (by omega) (by omega)
          (Nat.mod_lt _ (by decide))
      · have last : p + nand.restOfBlock p + (n - nand.restOfBlock p) = p + n := by omega
        rw [Nat.mod_eq_of_lt (show x + nand.restOfBlock p < 2 ^ 32 by omega)]
        exact ih (n - nand.restOfBlock p) (by omega) next (by omega) (by omega) (by omega)
          (by rw [last]; exact wraps)

theorem checkSkipLoop_full (more : x < length)
    (full : nand.size < p ∨ nand.goodBelow nand.size < nand.goodBelow p + (length - x)) :
    nand.checkSkipLoop length p x used ret = none := by
  induction rest : nand.size - p using Nat.strong_induction_on generalizing p x used ret with
  | _ rest' ih =>
    by_cases ended : nand.size ≤ p
    · rw [checkSkipLoop, if_pos more, if_pos ended]
    · have inside : p < nand.size := by omega
      have room := full.resolve_left (by omega)
      have within := restOfBlock_inside inside
      have pos := @restOfBlock_pos nand p
      have block := @goodBelow_add nand p (nand.restOfBlock p) (Nat.le_refl _)
      have above := @goodBelow_mono nand _ _ within
      rw [checkSkipLoop_turn more inside]
      cases isGood : nand.good p with
      | false =>
        rw [isGood, if_neg Bool.false_ne_true] at block
        rw [if_neg Bool.false_ne_true]
        exact ih _ (by omega) more (.inr (by omega)) rfl
      | true =>
        rw [isGood, if_pos rfl] at block
        have less : (x + nand.restOfBlock p) % 2 ^ 32 ≤ x + nand.restOfBlock p := Nat.mod_le _ _
        rw [if_pos rfl]
        exact ih _ (by omega) (by omega) (.inr (by omega)) rfl

/-- The bytes of the good blocks up to the end of a span's last block fit in 32 bits. -/
def Counts (nand : NandInfo) (offset length n : Nat) : Prop :=
  n = 0 ∨ length + nand.behind (offset + n - 1) < 2 ^ 32

variable {offset : Nat}

theorem checkSkipLen_fits (span : nand.IsSpan offset length n) (inside : offset + n ≤ nand.size)
    (counts : nand.Counts offset length n) :
    ∃ bad, nand.checkSkipLen offset length = some (n % 2 ^ 32, bad) ∧
      (bad = true ↔ nand.HasBad offset n) := by
  rcases Nat.eq_zero_or_pos length with rfl | positive
  · obtain rfl := span.empty
    refine ⟨false, ?_, iff_of_false Bool.false_ne_true fun ⟨q, low, high, _⟩ => by omega⟩
    rw [checkSkipLen, checkSkipLoop, if_neg (Nat.not_lt_zero 0)]
    rfl
  · have fits := counts.resolve_left (Nat.ne_of_gt (span.positive positive))
    obtain ⟨bad, run, found⟩ := @checkSkipLoop_fits nand offset 0 0 length n false length span
      positive (Nat.zero_add length) inside fits (by decide)
    refine ⟨bad, ?_, found.trans (or_iff_right Bool.false_ne_true)⟩
    rw [checkSkipLen, run]
    simp only [Nat.zero_add, Option.some.injEq, Prod.mk.injEq, and_true]
    split
    · omega
    · rw [show nand.behind (offset + n - 1) = 0 by omega, Nat.add_zero]

theorem checkSkipLen_wraps (span : nand.IsSpan offset length n) (inside : offset + n ≤ nand.size)
    (short : length < 2 ^ 32) (counts : ¬nand.Counts offset length n)
    : nand.checkSkipLen offset length = none := by
  have ⟨longer, wraps⟩ := not_or.mp counts
  have positive : 0 < length := by
    by_contra zero
    obtain rfl : length = 0 := by omega
    exact longer span.empty
  rw [checkSkipLen, checkSkipLoop_wraps span positive (Nat.zero_add length) inside short
    (Nat.not_lt.mp wraps)]

theorem checkSkipLen_full (positive : 0 < length)
    (none : ¬∃ n, nand.IsSpan offset length n ∧ offset + n ≤ nand.size) :
    nand.checkSkipLen offset length = Option.none := by
  rw [checkSkipLen, checkSkipLoop_full positive]
  by_contra room
  have ⟨inside, enough⟩ := not_or.mp room
  exact none (exists_span (by omega) (by omega))

theorem IsSpan.le {m : Nat} (span : nand.IsSpan offset length n)
    (other : nand.IsSpan offset length m) : m ≤ n := by
  by_contra longer
  have last := other.ends.resolve_left (by omega)
  have counted := other.holds
  rw [show offset + m = offset + m - 1 + 1 by omega, goodBelow_succ, if_pos last, ← span.holds]
    at counted
  have := @goodBelow_mono nand (offset + n) (offset + m - 1) (by omega)
  omega

/-- On a device of up to 2 GiB 32 bits count every span. -/
theorem counts_of_small {n : Nat} (small : nand.size ≤ 2 ^ 31)
    (span : nand.IsSpan offset length n) (inside : offset + n ≤ nand.size) :
    n < 2 ^ 32 ∧ nand.Counts offset length n := by
  have few : nand.goodBelow (offset + n) ≤ nand.goodBelow offset + n := by
    unfold goodBelow
    rw [Nat.count_add]
    exact Nat.add_le_add_left (Nat.count_le _) _
  have held := span.holds
  refine ⟨by omega, ?_⟩
  rcases Nat.eq_zero_or_pos n with zero | positive
  · exact .inl zero
  · have block : nand.erasesize ≤ nand.size := Nat.le_of_dvd (by omega) nand.blocks
    have rest : nand.restOfBlock (offset + n - 1) ≤ nand.erasesize := Nat.sub_le _ _
    refine .inr ?_
    unfold behind
    omega

/-- A device of four blocks, the second of them bad. -/
def fourBlocks : NandInfo where
  erasesize := 2 ^ 17
  writesize := 2 ^ 11
  size := 2 ^ 19
  isbad ofs := ofs == 2 ^ 17
  trimffs := false
  erasesize_pow := pow_seventeen
  writesize_pow := pow_eleven
  pages := pow_eleven_dvd
  blocks := ⟨2 ^ 2, rfl⟩

/-- Data from the second page of the first block on that go on behind the bad block. -/
theorem fourBlocks_span : fourBlocks.IsSpan (2 ^ 11) (2 ^ 17 + 5) (2 ^ 18 + 5) := by
  have first := @goodBelow_add fourBlocks (2 ^ 11) (2 ^ 17 - 2 ^ 11) (by decide)
  have second := @goodBelow_add fourBlocks (2 ^ 17) (2 ^ 17) (by decide)
  have third := @goodBelow_add fourBlocks (2 ^ 18) (2 ^ 11 + 5) (by decide)
  rw [show fourBlocks.good (2 ^ 11) = true by decide, if_pos rfl,
    show 2 ^ 11 + (2 ^ 17 - 2 ^ 11) = 2 ^ 17 by decide] at first
  rw [show fourBlocks.good (2 ^ 17) = false by decide, if_neg Bool.false_ne_true,
    show 2 ^ 17 + 2 ^ 17 = 2 ^ 18 by decide] at second
  rw [show fourBlocks.good (2 ^ 18) = true by decide, if_pos rfl] at third
  refine ⟨?_, .inr (by decide)⟩
  rw [show 2 ^ 11 + (2 ^ 18 + 5) = 2 ^ 18 + (2 ^ 11 + 5) by decide, third, second, first]
  generalize fourBlocks.goodBelow (2 ^ 11) = before
  omega

end NandInfo

end HrppBoot.Flash
