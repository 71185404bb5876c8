import Mathlib.Data.Nat.Bitwise
import Mathlib.Data.UInt

/-!
# Bits of bytes

A bit of a byte by its number, the byte that has only that bit, and what setting and clearing it
change.
-/

namespace ByteBits

/-- A bit of a byte. -/
def bit (byte : UInt8) (i : Nat) : Bool := byte.toNat.testBit i

/-- The byte with one bit. -/
def mask (i : Nat) : UInt8 := UInt8.ofNat (2 ^ i)

variable {byte : UInt8} {i j : Nat}

theorem toNat_mask (small : i < 8) : (mask i).toNat = 2 ^ i := by
  rw [mask, UInt8.toNat_ofNat']
  exact Nat.mod_eq_of_lt (Nat.pow_lt_pow_right (by decide) small)

/-- Bytes with the same bits are the same. -/
theorem eq_of_bit {other : UInt8} (same : ∀ i < 8, bit byte i = bit other i) : byte = other := by
  apply UInt8.toNat_inj.mp
  apply Nat.eq_of_testBit_eq
  intro i
  by_cases small : i < 8
  · exact same i small
  · have power : 2 ^ 8 ≤ 2 ^ i := Nat.pow_le_pow_right (by decide) (by omega)
    have left := byte.toNat_lt
    have right := other.toNat_lt
    rw [Nat.testBit_lt_two_pow (by omega), Nat.testBit_lt_two_pow (by omega)]

theorem bit_mask (small : i < 8) : bit (mask i) j = decide (i = j) := by
  rw [bit, toNat_mask small, Nat.testBit_two_pow]

theorem bit_or_mask (small : i < 8) : bit (byte ||| mask i) j = (bit byte j || decide (i = j)) := by
  rw [← bit_mask small, bit, UInt8.toNat_or, Nat.testBit_or]
  rfl

theorem and_mask_eq_zero_iff (small : i < 8) : byte &&& mask i = 0 ↔ bit byte i = false := by
  rw [← UInt8.toNat_inj, UInt8.toNat_and, toNat_mask small, Nat.and_two_pow, bit]
  cases byte.toNat.testBit i with
  | false => exact iff_of_true (Nat.zero_mul _) rfl
  | true =>
    refine iff_of_false ?_ (by decide)
    have positive := Nat.two_pow_pos i
    change 1 * 2 ^ i ≠ 0
    omega

theorem or_and_not {set : UInt8} (clear : byte &&& set = 0) : (byte ||| set) &&& ~~~set = byte := by
  have none := congrArg UInt8.toBitVec clear
  apply UInt8.toBitVec_inj.mp
  apply BitVec.eq_of_getElem_eq
  intro i small
  have here := congrArg (fun bits : BitVec 8 => bits[i]) none
  simp only [UInt8.toBitVec_and, BitVec.getElem_and] at here
  simp only [UInt8.toBitVec_and, UInt8.toBitVec_or, UInt8.toBitVec_not, BitVec.getElem_and,
    BitVec.getElem_or, BitVec.getElem_not]
  have zero : (0 : UInt8).toBitVec[i] = false := by simp
  rw [zero] at here
  cases one : byte.toBitVec[i] with
  | false => simp
  | true =>
    rw [one, Bool.true_and] at here
    rw [here]
    rfl

theorem bit_full (small : i < 8) : bit 255 i = true := by
  have every : ∀ k : Fin 8, bit 255 k = true := by decide
  exact every ⟨i, small⟩

/-- A byte other than 255 has a lowest bit that is clear. -/
theorem exists_lowest (other : byte ≠ 255) :
    ∃ i < 8, bit byte i = false ∧ ∀ j < i, bit byte j = true := by
  have some : ∃ i, i < 8 ∧ bit byte i = false := by
    by_contra none
    apply other
    apply eq_of_bit
    intro i small
    rw [bit_full small]
    by_contra clear
    exact none ⟨i, small, Bool.eq_false_of_not_eq_true clear⟩
  obtain ⟨small, clear⟩ := Nat.find_spec some
  refine ⟨Nat.find some, small, clear, fun j below => ?_⟩
  by_contra set
  exact Nat.find_min some below ⟨by omega, Bool.eq_false_of_not_eq_true set⟩

end ByteBits
