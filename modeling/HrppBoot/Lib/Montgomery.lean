import Mathlib.Data.Nat.ModEq
import Mathlib.Tactic.Ring
import Mathlib.Tactic.Linarith

/-!
# Montgomery multiplication

Products modulo `n` with a division by `r`, a number coprime to `n`. A number is scaled when it
stands for its quotient by `r`; products of scaled numbers are scaled, and the product of a scaled
number and one that is not is not scaled.
-/

namespace Montgomery

variable {n r : Nat}

/-- `x` is the product of `a` and `b`, divided by `r`. -/
def IsProduct (n r x a b : Nat) : Prop := x * r ≡ a * b [MOD n]

/-- `x` is `a`, scaled. -/
def IsScaled (n r x a : Nat) : Prop := x ≡ a * r [MOD n]

section Products

variable (coprime : Nat.Coprime n r)
include coprime

/-- The product with the square of `r` is the scaled number. -/
theorem IsProduct.scale {x a square : Nat} (product : IsProduct n r x a square)
    (isSquare : square ≡ r * r [MOD n]) : IsScaled n r x a := by
  apply Nat.ModEq.cancel_right_of_coprime coprime
  calc
    x * r ≡ a * square [MOD n] := product
    _ ≡ a * (r * r) [MOD n] := isSquare.mul_left a
    _ = a * r * r := by ring

/-- The product of two scaled numbers is scaled. -/
theorem IsProduct.scaled {x a b u v : Nat} (product : IsProduct n r x a b)
    (first : IsScaled n r a u) (second : IsScaled n r b v) : IsScaled n r x (u * v) := by
  apply Nat.ModEq.cancel_right_of_coprime coprime
  calc
    x * r ≡ a * b [MOD n] := product
    _ ≡ u * r * (v * r) [MOD n] := first.mul second
    _ = u * v * r * r := by ring

/-- A scaled factor takes the scale off a product. -/
theorem IsProduct.unscaled {x a b u : Nat} (product : IsProduct n r x a b)
    (first : IsScaled n r a u) : x ≡ u * b [MOD n] := by
  apply Nat.ModEq.cancel_right_of_coprime coprime
  calc
    x * r ≡ a * b [MOD n] := product
    _ ≡ u * r * b [MOD n] := first.mul_right b
    _ = u * b * r := by ring

end Products

/-! ## One digit -/

theorem dvd_clear {base inverse : Nat} (isInverse : base ∣ n * inverse + 1) (x low : Nat)
    (isLow : low ≡ x [MOD base]) : base ∣ x + low * inverse % base * n := by
  have clear : x + low * inverse % base * n ≡ low * (n * inverse + 1) [MOD base] := by
    calc
      x + low * inverse % base * n ≡ low + low * inverse * n [MOD base] :=
        isLow.symm.add ((Nat.mod_modEq _ _).mul_right n)
      _ = low * (n * inverse + 1) := by ring
  exact (Nat.modEq_zero_iff_dvd.mp
    (clear.trans (Nat.modEq_zero_iff_dvd.mpr (Dvd.dvd.mul_left isInverse low))))

theorem div_lt {base bound result digit b clear : Nat} (positive : 0 < base) (some : 0 < n)
    (resultBound : result < bound) (digitBound : digit < base) (bBound : b < bound)
    (clearBound : clear < base) : (result + digit * b + clear * n) / base < bound + n := by
  apply Nat.div_lt_of_lt_mul
  have product : digit * b ≤ (base - 1) * (bound - 1) :=
    Nat.mul_le_mul (by omega) (by omega)
  have multiple : clear * n ≤ (base - 1) * n := Nat.mul_le_mul_right n (by omega)
  obtain ⟨base, rfl⟩ : ∃ k, base = k + 1 := ⟨base - 1, by omega⟩
  obtain ⟨bound, rfl⟩ : ∃ k, bound = k + 1 := ⟨bound - 1, by omega⟩
  simp only [Nat.add_sub_cancel] at product multiple
  nlinarith

end Montgomery
