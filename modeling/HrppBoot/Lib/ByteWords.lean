import Mathlib.Data.BitVec

/-!
# Words of bytes

A word of several bytes in memory, in either byte order. Shifting a word by a byte and putting one
in at the free end takes the first byte away and adds one behind the last, in both orders.
-/

namespace ByteWords

/-- The order of the bytes of a word in memory. -/
inductive Order where
  | little
  | big
  deriving DecidableEq, Repr

/-- The place of the byte at an offset, from the lowest byte up. -/
def place (order : Order) (width k : Nat) : Nat :=
  match order with
  | .little => k
  | .big => width - 1 - k

/-- The byte at an offset. -/
def byteOf (order : Order) {width : Nat} (word : BitVec (8 * width)) (k : Nat) : BitVec 8 :=
  word.extractLsb' (8 * place order width k) 8

/-- The word of the lowest `n` bytes. -/
def ofLowest (width : Nat) (byte : Nat → BitVec 8) : Nat → BitVec (8 * width)
  | 0 => 0
  | n + 1 => ofLowest width byte n ||| (byte n).setWidth (8 * width) <<< (8 * n)

/-- The word of the bytes at the offsets from 0 on. -/
def ofBytes (order : Order) (width : Nat) (byte : Nat → BitVec 8) : BitVec (8 * width) :=
  ofLowest width (fun k => byte (place order width k)) width

/-- A word without its first byte, and a byte behind the last. -/
def push (order : Order) {width : Nat} (word : BitVec (8 * width)) (c : BitVec 8) :
    BitVec (8 * width) :=
  match order with
  | .little => word >>> 8 ||| c.setWidth (8 * width) <<< (8 * (width - 1))
  | .big => word <<< 8 ||| c.setWidth (8 * width)

variable {order : Order} {width : Nat}

theorem place_place {k : Nat} (inside : k < width) :
    place order width (place order width k) = k := by
  cases order with
  | little => rfl
  | big =>
    simp only [place]
    omega

theorem place_lt {k : Nat} (inside : k < width) : place order width k < width := by
  cases order with
  | little => exact inside
  | big =>
    simp only [place]
    omega

theorem getLsbD_byteOf (word : BitVec (8 * width)) (k : Nat) {i : Nat} (bit : i < 8) :
    (byteOf order word k).getLsbD i = word.getLsbD (8 * place order width k + i) := by
  rw [byteOf, BitVec.getLsbD_extractLsb', decide_eq_true bit, Bool.true_and]

theorem getLsbD_ofLowest (byte : Nat → BitVec 8) {n : Nat} (le : n ≤ width) (i : Nat) :
    (ofLowest width byte n).getLsbD i = (decide (i < 8 * n) && (byte (i / 8)).getLsbD (i % 8)) := by
  induction n with
  | zero => simp [ofLowest]
  | succ n ih =>
    rw [ofLowest, BitVec.getLsbD_or, ih (by omega), BitVec.getLsbD_shiftLeft,
      BitVec.getLsbD_setWidth]
    by_cases low : i < 8 * n
    · simp [low, show i < 8 * (n + 1) by omega]
    · by_cases here : i < 8 * (n + 1)
      · have byte' : i / 8 = n := by omega
        have bit : i - 8 * n = i % 8 := by omega
        simp [low, here, byte', bit, show i < 8 * width by omega, show i % 8 < 8 * width by omega]
      · have high : 8 ≤ i - 8 * n := by omega
        simp [low, here, BitVec.getLsbD_of_ge _ _ high]

theorem byteOf_ofBytes (byte : Nat → BitVec 8) {k : Nat} (inside : k < width) :
    byteOf order (ofBytes order width byte) k = byte k := by
  apply BitVec.eq_of_getLsbD_eq
  intro i bit
  have below := @place_lt order width k inside
  rw [getLsbD_byteOf _ _ bit, ofBytes, getLsbD_ofLowest _ (Nat.le_refl _)]
  have at' : (8 * place order width k + i) / 8 = place order width k := by omega
  have offset : (8 * place order width k + i) % 8 = i := by omega
  rw [at', offset, place_place inside, decide_eq_true (by omega), Bool.true_and]

theorem byteOf_and (word other : BitVec (8 * width)) (k : Nat) :
    byteOf order (word &&& other) k = byteOf order word k &&& byteOf order other k := by
  apply BitVec.eq_of_getLsbD_eq
  intro i bit
  rw [BitVec.getLsbD_and, getLsbD_byteOf _ _ bit, getLsbD_byteOf _ _ bit, getLsbD_byteOf _ _ bit,
    BitVec.getLsbD_and]

/-- Words with the same bytes are the same. -/
theorem ext_bytes {word other : BitVec (8 * width)}
    (same : ∀ k < width, byteOf order word k = byteOf order other k) : word = other := by
  apply BitVec.eq_of_getLsbD_eq
  intro i bit
  have inside : i / 8 < width := by omega
  have bits := congrArg (fun byte => byte.getLsbD (i % 8))
    (same (place order width (i / 8)) (place_lt inside))
  rw [getLsbD_byteOf _ _ (by omega), getLsbD_byteOf _ _ (by omega), place_place inside,
    Nat.div_add_mod] at bits
  exact bits

theorem byteOf_push (word : BitVec (8 * width)) (c : BitVec 8) {k : Nat} (inside : k < width) :
    byteOf order (push order word c) k =
      if k + 1 = width then c else byteOf order word (k + 1) := by
  apply BitVec.eq_of_getLsbD_eq
  intro i bit
  rw [getLsbD_byteOf _ _ bit]
  cases order with
  | little =>
    simp only [push, place, BitVec.getLsbD_or, BitVec.getLsbD_ushiftRight,
      BitVec.getLsbD_shiftLeft, BitVec.getLsbD_setWidth]
    by_cases last : k + 1 = width
    · have high : 8 * width ≤ 8 + (8 * k + i) := by omega
      have offset : 8 * k + i - 8 * (width - 1) = i := by omega
      simp [last, BitVec.getLsbD_of_ge _ _ high, offset, show 8 * k + i < 8 * width by omega,
        show ¬8 * k + i < 8 * (width - 1) by omega, show i < 8 * width by omega]
    · rw [if_neg last, getLsbD_byteOf _ _ bit]
      simp [place, show 8 * k + i < 8 * (width - 1) by omega,
        show 8 + (8 * k + i) = 8 * (k + 1) + i by omega]
  | big =>
    simp only [push, place, BitVec.getLsbD_or, BitVec.getLsbD_shiftLeft, BitVec.getLsbD_setWidth]
    by_cases last : k + 1 = width
    · have lowest : width - 1 - k = 0 := by omega
      simp [last, lowest, bit, show i < 8 * width by omega]
    · have high : 8 ≤ 8 * (width - 1 - k) + i := by omega
      rw [if_neg last, getLsbD_byteOf _ _ bit]
      simp [place, BitVec.getLsbD_of_ge _ _ high, show ¬8 * (width - 1 - k) + i < 8 by omega,
        show 8 * (width - 1 - k) + i < 8 * width by omega,
        show 8 * (width - 1 - k) + i - 8 = 8 * (width - 1 - (k + 1)) + i by omega]

theorem push_one (word : BitVec (8 * 1)) (c : BitVec 8) : push order word c = c := by
  apply @ext_bytes order 1
  intro k inside
  have lowest : place order 1 k = 0 := by
    cases order with
    | little =>
      simp only [place]
      omega
    | big =>
      simp only [place]
      omega
  rw [byteOf_push word c inside, if_pos (by omega), byteOf, lowest]
  exact BitVec.extractLsb'_eq_self.symm

end ByteWords
