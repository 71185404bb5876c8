import Mathlib.Data.UInt

/-!
# One's-complement sums

Words of 16 bits are added with the carry put back at the low end. Such a sum is the residue of the
plain sum modulo 65535, in the one of the two representations of zero that says whether there was
anything to add. A byte counts 256 times as much at the other place of its word, which swaps the
bytes of a sum.
-/

namespace OnesComplement

/-! ## Words -/

/-- Addition with the carry put back. -/
def add (m n : Nat) : Nat := if 65535 < m + n then m + n - 65535 else m + n

/-- The sum of words. -/
def sum (words : List Nat) : Nat := words.foldl add 0

/-- The residue of a number, from 1 to 65535 unless the number is zero. -/
def residue (n : Nat) : Nat := if n = 0 then 0 else (n - 1) % 65535 + 1

theorem residue_le (n : Nat) : residue n ≤ 65535 := by
  unfold residue
  split <;> omega

theorem residue_mod (n : Nat) : residue n % 65535 = n % 65535 := by
  unfold residue
  split <;> omega

theorem residue_eq_zero {n : Nat} : residue n = 0 ↔ n = 0 := by
  unfold residue
  split <;> omega

variable {n : Nat}

theorem eq_residue {m : Nat} (small : m ≤ 65535) (congruent : m % 65535 = n % 65535)
    (zero : m = 0 ↔ n = 0) : m = residue n := by
  unfold residue
  split <;> omega

theorem residue_of_le (small : n ≤ 65535) : residue n = n :=
  (eq_residue small rfl Iff.rfl).symm

/-- The residue of a sum is the one's-complement sum of the residues. -/
theorem residue_add (m n : Nat) : residue (m + n) = add (residue m) (residue n) := by
  have left := residue_le m
  have right := residue_le n
  have leftMod := residue_mod m
  have rightMod := residue_mod n
  have leftZero := @residue_eq_zero m
  have rightZero := @residue_eq_zero n
  symm
  unfold add
  split
  case isTrue above => exact eq_residue (by omega) (by omega) (by omega)
  case isFalse fits => exact eq_residue (by omega) (by omega) (by omega)

theorem sum_eq_residue {words : List Nat} (small : ∀ word ∈ words, word ≤ 65535) :
    sum words = residue words.sum := by
  have folded (start : Nat) : words.foldl add (residue start) = residue (start + words.sum) := by
    induction words generalizing start with
    | nil => rfl
    | cons word words ih =>
      have own := residue_of_le (small word List.mem_cons_self)
      rw [List.foldl_cons, List.sum_cons, ← Nat.add_assoc,
        ← ih (fun other member => small other (List.mem_cons_of_mem _ member)), residue_add, own]
  have whole := folded 0
  rwa [Nat.zero_add] at whole

/-- A number and the complement of its residue sum up to all ones. -/
theorem residue_complement (n : Nat) : residue (n + (65535 - residue n)) = 65535 := by
  have small := residue_le n
  have congruent := residue_mod n
  have zero := @residue_eq_zero n
  exact (eq_residue (Nat.le_refl _) (by omega) (by omega)).symm

/-- Two folds of 32 bits give the residue. -/
theorem fold_twice (small : n < 2 ^ 32) :
    let once := n / 65536 + n % 65536
    (once + once / 65536) % 65536 = residue n := by
  intro once
  have split : n = 65536 * (n / 65536) + n % 65536 := (Nat.div_add_mod n 65536).symm
  have whole : once = n / 65536 + n % 65536 := rfl
  clear_value once
  rcases Nat.lt_or_ge once 65536 with fits | above
  · rw [Nat.div_eq_of_lt fits, Nat.add_zero, Nat.mod_eq_of_lt fits]
    refine eq_residue ?_ ?_ ?_ <;> omega
  · have carry : once / 65536 = 1 := by omega
    have low : (once + 1) % 65536 = once - 65535 := by omega
    rw [carry, low]
    refine eq_residue ?_ ?_ ?_ <;> omega

theorem residue_add_of_full {weight : Nat} (full : residue n = 65535) (some : 0 < weight)
    (small : weight ≤ 65535) : residue (n + weight) = weight := by
  have congruent := residue_mod n
  refine (eq_residue small ?_ ?_).symm <;> omega

theorem residue_of_full_add {weight : Nat} (full : residue (n + weight) = 65535)
    (small : weight < 65535) : residue n = 65535 - weight := by
  have congruent := residue_mod (n + weight)
  have something := @residue_eq_zero (n + weight)
  refine (eq_residue (Nat.sub_le _ _) ?_ ?_).symm <;> omega

theorem swap_eq_residue (small : n ≤ 65535) :
    n / 256 + n % 256 * 256 = residue (256 * n) := by
  refine eq_residue ?_ ?_ ?_ <;> omega

theorem residue_mul_residue (n : Nat) : residue (256 * residue n) = residue (256 * n) := by
  have congruent := residue_mod n
  have zero := @residue_eq_zero n
  refine eq_residue (residue_le _) ?_ ?_
  · rw [residue_mod, Nat.mul_mod, congruent, ← Nat.mul_mod]
  · rw [residue_eq_zero]
    omega

/-! ## Bytes -/

/-- The little-endian words of a byte string; an odd byte counts as the low one of a word. -/
def words : List UInt8 → List Nat
  | [] => []
  | [low] => [low.toNat]
  | low :: high :: rest => (low.toNat + 256 * high.toNat) :: words rest

/-- The plain sum of the words of a byte string, from a low or a high byte on. -/
def byteSum : Bool → List UInt8 → Nat
  | _, [] => 0
  | high, byte :: rest => (if high then 256 * byte.toNat else byte.toNat) + byteSum (!high) rest

theorem words_le (bytes : List UInt8) : ∀ word ∈ words bytes, word ≤ 65535 := by
  induction bytes using words.induct with
  | case1 => simp [words]
  | case2 low =>
    have small := low.toNat_lt
    simp only [words, List.mem_singleton]
    rintro word rfl
    omega
  | case3 low high rest ih =>
    have smallLow := low.toNat_lt
    have smallHigh := high.toNat_lt
    simp only [words, List.mem_cons]
    rintro word (rfl | member)
    · omega
    · exact ih word member

/-- The sum of the words is the one by bytes. -/
theorem sum_words (bytes : List UInt8) : (words bytes).sum = byteSum false bytes := by
  induction bytes using words.induct with
  | case1 => rfl
  | case2 low => simp [words, byteSum]
  | case3 low high rest ih =>
    simp only [words, List.sum_cons, ih, byteSum, Bool.false_eq_true, if_false, Bool.not_false,
      if_true, Bool.not_true]
    omega

/-- The one's-complement sum of the words is the residue of the plain sum. -/
theorem sum_words_eq_residue (bytes : List UInt8) :
    sum (words bytes) = residue (byteSum false bytes) := by
  rw [sum_eq_residue (words_le bytes), sum_words]

theorem byteSum_append (high : Bool) (front back : List UInt8) :
    byteSum high (front ++ back) =
      byteSum high front + byteSum (high ^^ decide (front.length % 2 = 1)) back := by
  induction front generalizing high with
  | nil => simp [byteSum]
  | cons byte front ih =>
    have place : (!high ^^ decide (front.length % 2 = 1)) =
        (high ^^ decide ((byte :: front).length % 2 = 1)) := by
      rw [List.length_cons]
      rcases Nat.mod_two_eq_zero_or_one front.length with even | odd
      · have next : (front.length + 1) % 2 = 1 := by omega
        simp [even, next]
      · have next : (front.length + 1) % 2 = 0 := by omega
        simp [odd, next]
    rw [List.cons_append, byteSum, byteSum, ih, place, Nat.add_assoc]

/-- From a high byte on, every byte counts 256 times as much. -/
theorem residue_byteSum_high (bytes : List UInt8) :
    residue (byteSum true bytes) = residue (256 * byteSum false bytes) := by
  have both : byteSum true bytes % 65535 = 256 * byteSum false bytes % 65535 ∧
      byteSum false bytes % 65535 = 256 * byteSum true bytes % 65535 ∧
      (byteSum true bytes = 0 ↔ byteSum false bytes = 0) := by
    induction bytes with
    | nil => simp [byteSum]
    | cons byte bytes ih =>
      simp only [byteSum, if_true, Bool.not_true, Bool.false_eq_true, if_false, Bool.not_false]
      omega
  refine eq_residue (residue_le _) ?_ ?_
  · rw [residue_mod, both.1]
  · rw [residue_eq_zero, both.2.2]
    omega

theorem byteSum_le (high : Bool) (bytes : List UInt8) :
    2 * byteSum high bytes ≤ 65535 * bytes.length + (if high then 65025 else 0) := by
  induction bytes generalizing high with
  | nil => simp [byteSum]
  | cons byte bytes ih =>
    have small := byte.toNat_lt
    cases high with
    | false =>
      have later := ih true
      simp only [byteSum, Bool.false_eq_true, if_false, Bool.not_false, if_true,
        List.length_cons] at later ⊢
      omega
    | true =>
      have later := ih false
      simp only [byteSum, Bool.false_eq_true, if_false, Bool.not_true, if_true,
        List.length_cons] at later ⊢
      omega

end OnesComplement
