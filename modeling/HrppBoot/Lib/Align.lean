import Mathlib.Data.Nat.Bitwise
import Mathlib.Data.UInt

/-!
# Rounding to a power of two

Rounding down to a multiple of an alignment, as code does it with a mask and as a quotient. The
multiple below a number is the greatest one that is not above it.
-/

namespace Align

/-- The greatest multiple of `align` that is not above a number. -/
def down (n align : Nat) : Nat := n / align * align

section Down

variable {n align : Nat}

theorem dvd_down (n align : Nat) : align ∣ down n align := Nat.dvd_mul_left ..

theorem down_le (n align : Nat) : down n align ≤ n := Nat.div_mul_le_self ..

theorem le_down {m : Nat} (multiple : align ∣ m) (le : m ≤ n) : m ≤ down n align := by
  obtain ⟨k, rfl⟩ := multiple
  unfold down
  rcases Nat.eq_zero_or_pos align with rfl | positive
  · simp
  · rw [Nat.mul_comm align k] at le ⊢
    exact Nat.mul_le_mul_right _ ((Nat.le_div_iff_mul_le positive).mpr le)

/-- Less than a unit is cut off. -/
theorem lt_down_add (n : Nat) (positive : 0 < align) : n < down n align + align :=
  Nat.lt_div_mul_add positive

end Down

/-- The least multiple of `align` that is not below a number. -/
def up (n align : Nat) : Nat := down (n + (align - 1)) align

section Up

variable {n align : Nat}

theorem dvd_up (n align : Nat) : align ∣ up n align := dvd_down ..

theorem le_up (n : Nat) (positive : 0 < align) : n ≤ up n align := by
  have bound := lt_down_add (n + (align - 1)) positive
  unfold up
  omega

theorem up_lt_add (n : Nat) (positive : 0 < align) : up n align < n + align := by
  have bound := down_le (n + (align - 1)) align
  unfold up
  omega

theorem up_le {m : Nat} (positive : 0 < align) (multiple : align ∣ m) (le : n ≤ m) :
    up n align ≤ m := by
  have bound := up_lt_add n positive
  obtain ⟨p, rounded⟩ := dvd_up n align
  obtain ⟨q, rfl⟩ := multiple
  rw [rounded] at bound ⊢
  have less : align * p < align * (q + 1) := by
    rw [Nat.mul_add, Nat.mul_one]
    omega
  exact Nat.mul_le_mul_left _ (Nat.lt_succ_iff.mp (Nat.lt_of_mul_lt_mul_left less))

end Up

theorem dvd_words {align : UInt32} (power : align.toNat.isPowerOfTwo) : align.toNat ∣ 2 ^ 32 := by
  obtain ⟨k, power⟩ := power
  have bound := align.toNat_lt
  rw [power] at bound ⊢
  exact Nat.pow_dvd_pow 2 (Nat.pow_lt_pow_iff_right (by decide) |>.mp bound).le

/-- Masking the bits below a power of two rounds down to a multiple of it. -/
theorem toNat_and_not_pred {addr align : UInt32} (power : align.toNat.isPowerOfTwo) :
    (addr &&& ~~~(align - 1)).toNat = down addr.toNat align.toNat := by
  obtain ⟨k, power⟩ := power
  have bound := align.toNat_lt
  have one : (1 : UInt32) ≤ align := by
    rw [UInt32.le_iff_toNat_le, UInt32.toNat_one, power]
    exact Nat.one_le_two_pow
  have below : 2 ^ k - 1 < 2 ^ 32 := by
    rw [power] at bound
    omega
  have mask : (~~~(align - 1)).toNat = 2 ^ 32 - (2 ^ k - 1 + 1) := by
    rw [UInt32.toNat_not, UInt32.toNat_sub_of_le _ _ one, power, UInt32.toNat_one]
    simp only [UInt32.size]
    omega
  rw [UInt32.toNat_and, mask, down, power, ← Nat.shiftRight_eq_div_pow, ← Nat.shiftLeft_eq]
  apply Nat.eq_of_testBit_eq
  intro i
  rw [Nat.testBit_and, Nat.testBit_two_pow_sub_succ below, Nat.testBit_two_pow_sub_one,
    Nat.testBit_shiftLeft, Nat.testBit_shiftRight]
  by_cases high : i < 32
  · by_cases low : i < k
    · simp [low, high]
    · have same : k + (i - k) = i := by omega
      simp only [same, high, low, decide_true, decide_false, Bool.not_false, Bool.and_true,
        ge_iff_le, Nat.not_lt.mp low, Bool.true_and]
  · have small : addr.toNat < 2 ^ i :=
      lt_of_lt_of_le addr.toNat_lt (Nat.pow_le_pow_right (by decide) (by omega))
    have bit := Nat.testBit_lt_two_pow small
    by_cases low : i < k
    · simp [bit, low]
    · have same : k + (i - k) = i := by omega
      simp [bit, same]

end Align
