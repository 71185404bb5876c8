import HrppBoot.Flash.NandSkip
import Mathlib.Data.Nat.Count

/-!
# Where data lies around bad blocks

The bytes in good blocks are counted along the device: a span from an offset on has as many of them
as the data have bytes, and ends with one. `check_skip_len` finds the length of the span wherever
its 32-bit counters hold it.
-/

namespace HrppBoot.Flash

namespace NandInfo

variable (nand : NandInfo)

/-- A byte of the device lies in a good block. -/
def good (i : Nat) : Bool := !nand.isbad (nand.blockStart i)

/-- How many bytes in good blocks lie below an address. -/
def goodBelow (n : Nat) : Nat := Nat.count (fun i => nand.good i = true) n

/-- A length from an offset on has as many bytes in good blocks as stated, and ends with one. -/
structure IsSpan (offset length n : Nat) : Prop where
  holds : nand.goodBelow (offset + n) = nand.goodBelow offset + length
  ends : n = 0 ∨ nand.good (offset + n - 1) = true

/-- The bytes of a block from an address on. -/
def restOfBlock (offset : Nat) : Nat := nand.erasesize - nand.blockOffset offset

variable {nand} {p q k : Nat}

theorem restOfBlock_pos : 0 < nand.restOfBlock p := by
  have := Nat.mod_lt p nand.erasesize_pos
  unfold restOfBlock blockOffset
  omega

theorem blockStart_eq (from_p : p ≤ q) (below : q < p + nand.restOfBlock p) :
    nand.blockStart q = nand.blockStart p := by
  have positive := nand.erasesize_pos
  have small := Nat.mod_lt p positive
  unfold restOfBlock blockOffset at below
  unfold blockStart
  have split := Nat.div_add_mod p nand.erasesize
  obtain ⟨d, rfl⟩ := Nat.exists_eq_add_of_le from_p
  have quotient : (p + d) % nand.erasesize = p % nand.erasesize + d := by
    rw [Nat.add_mod, Nat.mod_eq_of_lt (show d < nand.erasesize by omega),
      Nat.mod_eq_of_lt (by omega)]
  omega

theorem good_eq (from_p : p ≤ q) (below : q < p + nand.restOfBlock p) :
    nand.good q = nand.good p := by
  rw [good, good, blockStart_eq from_p below]

theorem goodBelow_succ : nand.goodBelow (p + 1) = nand.goodBelow p + if nand.good p then 1 else 0 :=
  Nat.count_succ _ _

theorem goodBelow_mono (le : p ≤ q) : nand.goodBelow p ≤ nand.goodBelow q :=
  Nat.count_monotone _ le

theorem goodBelow_add (inside : k ≤ nand.restOfBlock p) :
    nand.goodBelow (p + k) = nand.goodBelow p + if nand.good p then k else 0 := by
  induction k with
  | zero => simp
  | succ k ih =>
    rw [← Nat.add_assoc, goodBelow_succ, ih (by omega),
      good_eq (Nat.le_add_right p k) (by omega)]
    split <;> omega

theorem goodBelow_of_good {n : Nat} (all : ∀ i, p ≤ i → i < p + n → nand.good i = true) :
    nand.goodBelow (p + n) = nand.goodBelow p + n := by
  induction n with
  | zero => rfl
  | succ n ih =>
    rw [← Nat.add_assoc, goodBelow_succ, ih fun i low high => all i low (by omega),
      if_pos (all (p + n) (Nat.le_add_right p n) (by omega)), Nat.add_assoc]

theorem exists_goodBelow {target : Nat} (le : p ≤ q) (low : nand.goodBelow p ≤ target)
    (high : target ≤ nand.goodBelow q) :
    ∃ m, p ≤ m ∧ m ≤ q ∧ nand.goodBelow m = target ∧ (m = p ∨ nand.good (m - 1) = true) := by
  induction q, le using Nat.le_induction with
  | base => exact ⟨p, Nat.le_refl p, Nat.le_refl p, Nat.le_antisymm low high, .inl rfl⟩
  | succ q le ih =>
    by_cases before : target ≤ nand.goodBelow q
    · obtain ⟨m, least, most, found, ends⟩ := ih before
      exact ⟨m, least, Nat.le_succ_of_le most, found, ends⟩
    · rw [goodBelow_succ] at high
      have last : nand.good q = true := by
        by_contra bad
        rw [if_neg bad] at high
        omega
      rw [if_pos last] at high
      refine ⟨q + 1, by omega, Nat.le_refl _, ?_, .inr last⟩
      rw [goodBelow_succ, if_pos last]
      omega

variable {length offset n : Nat}

theorem exists_span (inside : offset ≤ nand.size)
    (enough : nand.goodBelow offset + length ≤ nand.goodBelow nand.size) :
    ∃ n, nand.IsSpan offset length n ∧ offset + n ≤ nand.size := by
  obtain ⟨m, least, most, found, ends⟩ :=
    exists_goodBelow inside (Nat.le_add_right (nand.goodBelow offset) length) enough
  refine ⟨m - offset, ⟨?_, ?_⟩, ?_⟩
  · rw [Nat.add_sub_cancel' least, found]
  · rw [Nat.add_sub_cancel' least]
    refine ends.imp (fun same => ?_) id
    omega
  · omega

theorem IsSpan.positive (span : nand.IsSpan offset length n) (some : 0 < length) : 0 < n := by
  rcases Nat.eq_zero_or_pos n with rfl | positive
  · have := span.holds
    rw [Nat.add_zero] at this
    omega
  · exact positive

theorem IsSpan.empty (span : nand.IsSpan offset 0 n) : n = 0 := by
  rcases span.ends with zero | last
  · exact zero
  · by_contra positive
    have before : offset + n = offset + n - 1 + 1 := by omega
    have counted := span.holds
    rw [before, goodBelow_succ, if_pos last] at counted
    have := @goodBelow_mono nand offset (offset + n - 1) (by omega)
    omega

theorem IsSpan.skip (span : nand.IsSpan offset length n) (some : 0 < length)
    (bad : nand.good offset = false) :
    nand.restOfBlock offset < n ∧
      nand.IsSpan (offset + nand.restOfBlock offset) length (n - nand.restOfBlock offset) := by
  have positive := span.positive some
  have last := span.ends.resolve_left (by omega)
  have beyond : nand.restOfBlock offset < n := by
    by_contra inside
    have same := @good_eq nand offset (offset + n - 1) (by omega) (by omega)
    rw [same, bad] at last
    cases last
  have same : offset + nand.restOfBlock offset + (n - nand.restOfBlock offset) = offset + n := by
    omega
  refine ⟨beyond, ?_, ?_⟩
  · rw [same, span.holds, goodBelow_add (Nat.le_refl _), bad]
    rfl
  · rw [same]
    exact .inr last

theorem IsSpan.take (span : nand.IsSpan offset length n) (some : 0 < length)
    (good : nand.good offset = true) :
    length ≤ nand.restOfBlock offset ∧ n = length ∨
      nand.restOfBlock offset < length ∧ nand.restOfBlock offset < n ∧
      nand.IsSpan (offset + nand.restOfBlock offset) (length - nand.restOfBlock offset)
        (n - nand.restOfBlock offset) := by
  have positive := span.positive some
  have last := span.ends.resolve_left (by omega)
  by_cases inside : n ≤ nand.restOfBlock offset
  · have counted := @goodBelow_add nand offset n inside
    rw [span.holds, if_pos good] at counted
    exact .inl (by omega)
  · have same : offset + nand.restOfBlock offset + (n - nand.restOfBlock offset) = offset + n := by
      omega
    have block := @goodBelow_add nand offset (nand.restOfBlock offset) (Nat.le_refl _)
    rw [if_pos good] at block
    have before : offset + n = offset + n - 1 + 1 := by omega
    have more := @goodBelow_mono nand (offset + nand.restOfBlock offset) (offset + n - 1) (by omega)
    have counted := span.holds
    rw [before, goodBelow_succ, if_pos last] at counted
    refine .inr ⟨by omega, by omega, ?_, ?_⟩
    · rw [same, span.holds, block]
      omega
    · rw [same]
      exact .inr last

end NandInfo

end HrppBoot.Flash
