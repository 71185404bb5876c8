import Mathlib.Data.UInt
import Mathlib.Tactic.Ring

/-!
# Records of little-endian fields

A number as a fixed number of bytes, the least significant first, and a record as the
concatenation of its fields. A field is read at its offset; the lemmas step over the fields in
front of it. An array is the concatenation of records of one size.
-/

namespace LittleEndian

/-- A number in `count` bytes; what does not fit is lost. -/
def leBytes : Nat → Nat → List UInt8
  | 0, _ => []
  | count + 1, number => UInt8.ofNat number :: leBytes count (number / 256)

/-- The number in a list of bytes. -/
def leValue : List UInt8 → Nat
  | [] => 0
  | byte :: rest => byte.toNat + 256 * leValue rest

/-- The bytes of a field. -/
def bytesAt (buffer : List UInt8) (offset count : Nat) : List UInt8 :=
  (buffer.drop offset).take count

/-- The number in a field. -/
def field (buffer : List UInt8) (offset count : Nat) : Nat :=
  leValue (bytesAt buffer offset count)

@[simp] theorem length_leBytes (count number : Nat) : (leBytes count number).length = count := by
  induction count generalizing number with
  | zero => rfl
  | succ count ih => simp [leBytes, ih]

variable {count : Nat} {first : List UInt8}

/-- A number that fits is read back from its bytes. -/
theorem leValue_leBytes {number : Nat} (fits : number < 256 ^ count) :
    leValue (leBytes count number) = number := by
  induction count generalizing number with
  | zero =>
    have zero : number = 0 := by simpa using fits
    simp [leBytes, leValue, zero]
  | succ count ih =>
    have high : number / 256 < 256 ^ count := by
      apply Nat.div_lt_of_lt_mul
      rwa [← Nat.pow_succ']
    have low : (UInt8.ofNat number).toNat = number % 256 := UInt8.toNat_ofNat'
    rw [leBytes, leValue, ih high, low]
    exact Nat.mod_add_div number 256

theorem bytesAt_skip (rest : List UInt8) {offset : Nat} (behind : first.length ≤ offset) :
    bytesAt (first ++ rest) offset count = bytesAt rest (offset - first.length) count := by
  unfold bytesAt
  rw [List.drop_append, List.drop_eq_nil_of_le behind, List.nil_append]

theorem bytesAt_first (rest : List UInt8) (whole : first.length = count)
    : bytesAt (first ++ rest) 0 count = first := by
  subst whole
  simp [bytesAt]

theorem field_skip (rest : List UInt8) {offset : Nat} (behind : first.length ≤ offset) :
    field (first ++ rest) offset count = field rest (offset - first.length) count := by
  unfold field
  rw [bytesAt_skip rest behind]

theorem field_first {number : Nat} (rest : List UInt8) (fits : number < 256 ^ count) :
    field (leBytes count number ++ rest) 0 count = number := by
  unfold field
  rw [bytesAt_first rest (length_leBytes count number), leValue_leBytes fits]

section Arrays

variable {α : Type} (encode : α → List UInt8) {size : Nat}

theorem length_array (sized : ∀ record, (encode record).length = size) (records : List α)
    : (records.flatMap encode).length = records.length * size := by
  simp [List.length_flatMap, sized]

theorem bytesAt_flatMap (sized : ∀ record, (encode record).length = size) (records : List α)
    (rest : List UInt8) (index : Nat) (inside : index < records.length) :
    bytesAt (records.flatMap encode ++ rest) (index * size) size = encode records[index] := by
  induction records generalizing index with
  | nil => simp at inside
  | cons record records ih =>
    rw [List.flatMap_cons, List.append_assoc]
    cases index with
    | zero =>
      rw [Nat.zero_mul]
      exact bytesAt_first _ (sized record)
    | succ index =>
      have step : (index + 1) * size - (encode record).length = index * size := by
        rw [sized, Nat.succ_mul, Nat.add_sub_cancel]
      rw [bytesAt_skip _ (by rw [sized, Nat.succ_mul]; omega), step]
      exact ih index (by simpa using inside)

end Arrays

end LittleEndian
