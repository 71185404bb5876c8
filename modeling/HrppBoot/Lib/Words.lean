import Mathlib.Data.Nat.Digits.Defs

/-!
# Numbers in words

Numbers as lists of 32-bit words, the least significant word first, and as lists of bytes, the most
significant byte first.
-/

namespace Words

/-- The values of a word. -/
def base : Nat := 2 ^ 32

/-- The number in a list of words. -/
def value (words : List UInt32) : Nat := Nat.ofDigits base (words.map UInt32.toNat)

@[simp] theorem value_nil : value [] = 0 := rfl

@[simp] theorem value_cons (word : UInt32) (words : List UInt32) :
    value (word :: words) = word.toNat + base * value words := rfl

/-- The number of words in a row, the lowest first. -/
theorem value_append (low high : List UInt32) :
    value (low ++ high) = value low + base ^ low.length * value high := by
  simp only [value, List.map_append, Nat.ofDigits_append, List.length_map]

@[simp] theorem value_zeros (n : Nat) : value (List.replicate n 0) = 0 := by
  induction n with
  | zero => rfl
  | succ n ih =>
    rw [List.replicate_succ, value_cons, ih]
    rfl

theorem word_lt (word : UInt32) : word.toNat < base := word.toNat_lt

theorem value_lt (words : List UInt32) : value words < base ^ words.length := by
  have digits : ∀ x ∈ words.map UInt32.toNat, x < base := by
    intro x member
    obtain ⟨word, -, rfl⟩ := List.mem_map.mp member
    exact word_lt word
  have bound := Nat.ofDigits_lt_base_pow_length (by decide : 1 < base) digits
  rwa [List.length_map] at bound

theorem toNat_ofNat (x : Nat) : (UInt32.ofNat x).toNat = x % base := UInt32.toNat_ofNat'

/-! ## Bytes -/

/-- The number in a list of bytes. -/
def bigEndian (bytes : List UInt8) : Nat := bytes.foldl (fun n byte => 256 * n + byte.toNat) 0

/-- Four bytes as a word. -/
def be32 (a b c d : UInt8) : UInt32 := UInt32.ofNat (bigEndian [a, b, c, d])

/-- The bytes of a word. -/
def bytesOf (word : UInt32) : List UInt8 :=
  [UInt8.ofNat (word.toNat / 2 ^ 24), UInt8.ofNat (word.toNat / 2 ^ 16),
    UInt8.ofNat (word.toNat / 2 ^ 8), UInt8.ofNat word.toNat]

/-- Bytes as words; bytes that do not fill a word are left out. -/
def ofBytes : List UInt8 → List UInt32
  | a :: b :: c :: d :: rest => be32 a b c d :: ofBytes rest
  | _ => []

/-- Words as bytes. -/
def toBytes (words : List UInt32) : List UInt8 := words.flatMap bytesOf

theorem foldl_bytes (n : Nat) (bytes : List UInt8) :
    bytes.foldl (fun n byte => 256 * n + byte.toNat) n =
      n * 256 ^ bytes.length + bigEndian bytes := by
  induction bytes generalizing n with
  | nil => simp [bigEndian]
  | cons byte bytes ih =>
    rw [bigEndian, List.foldl_cons, List.foldl_cons, ih, ih (256 * 0 + byte.toNat),
      List.length_cons, Nat.pow_succ]
    ring

/-- The number of bytes in a row, the highest first. -/
theorem bigEndian_append (high low : List UInt8) :
    bigEndian (high ++ low) = bigEndian high * 256 ^ low.length + bigEndian low := by
  rw [bigEndian, List.foldl_append]
  exact foldl_bytes _ low

theorem bigEndian_lt (bytes : List UInt8) : bigEndian bytes < 256 ^ bytes.length := by
  induction bytes with
  | nil => decide
  | cons byte bytes ih =>
    have number : bigEndian (byte :: bytes) = bigEndian [byte] * 256 ^ bytes.length + bigEndian bytes :=
      bigEndian_append [byte] bytes
    have first : bigEndian [byte] = byte.toNat := by simp [bigEndian]
    have bound := byte.toNat_lt
    rw [number, first, List.length_cons, Nat.pow_succ]
    have product : (byte.toNat + 1) * 256 ^ bytes.length ≤ 256 * 256 ^ bytes.length :=
      Nat.mul_le_mul_right _ (by omega)
    rw [Nat.add_mul, Nat.one_mul] at product
    rw [Nat.mul_comm (256 ^ bytes.length)]
    omega

/-- Strings of one length with one number are the same. -/
theorem bigEndian_inj {left right : List UInt8} (length : left.length = right.length)
    (same : bigEndian left = bigEndian right) : left = right := by
  induction left generalizing right with
  | nil => exact (List.length_eq_zero_iff.mp length.symm).symm
  | cons l left ih =>
    match right, length with
    | r :: right, length =>
      have lengths : left.length = right.length := by simpa using length
      have leftNumber : bigEndian (l :: left) = bigEndian [l] * 256 ^ left.length + bigEndian left :=
        bigEndian_append [l] left
      have rightNumber :
          bigEndian (r :: right) = bigEndian [r] * 256 ^ right.length + bigEndian right :=
        bigEndian_append [r] right
      have leftBound := bigEndian_lt left
      have rightBound := bigEndian_lt right
      rw [leftNumber, rightNumber, lengths] at same
      rw [lengths] at leftBound
      have positive : 0 < 256 ^ right.length := Nat.pow_pos (by decide)
      have low : bigEndian left = bigEndian right := by
        have modulo := congrArg (· % 256 ^ right.length) same
        simpa only [Nat.mul_add_mod_self_right, Nat.mod_eq_of_lt leftBound,
          Nat.mod_eq_of_lt rightBound] using modulo
      have high : bigEndian [l] = bigEndian [r] := by
        rw [low] at same
        exact Nat.eq_of_mul_eq_mul_right positive (Nat.add_right_cancel same)
      have first : l = r := by
        apply UInt8.toNat_inj.mp
        simpa [bigEndian] using high
      rw [first, ih lengths low]

/-- The low bytes of a number. -/
def natBytes : (count number : Nat) → List UInt8
  | 0, _ => []
  | count + 1, number => natBytes count (number / 256) ++ [UInt8.ofNat number]

@[simp] theorem length_natBytes (count number : Nat) : (natBytes count number).length = count := by
  induction count generalizing number with
  | zero => rfl
  | succ count ih => rw [natBytes, List.length_append, ih, List.length_singleton]

/-- A number is read back as far as the bytes reach. -/
theorem bigEndian_natBytes (count number : Nat) :
    bigEndian (natBytes count number) = number % 256 ^ count := by
  induction count generalizing number with
  | zero =>
    rw [pow_zero, Nat.mod_one]
    rfl
  | succ count ih =>
    have last : bigEndian [UInt8.ofNat number] = number % 256 := by
      simp [bigEndian]
    rw [natBytes, bigEndian_append, ih, last, List.length_singleton, pow_one, pow_succ',
      Nat.mod_mul]
    ring

theorem toNat_be32 (a b c d : UInt8) : (be32 a b c d).toNat = bigEndian [a, b, c, d] := by
  have := a.toNat_lt
  have := b.toNat_lt
  have := c.toNat_lt
  have := d.toNat_lt
  rw [be32, toNat_ofNat]
  apply Nat.mod_eq_of_lt
  simp only [bigEndian, base, List.foldl_cons, List.foldl_nil]
  omega

theorem bigEndian_bytesOf (word : UInt32) : bigEndian (bytesOf word) = word.toNat := by
  have bound := word.toNat_lt
  simp only [bigEndian, bytesOf, List.foldl_cons, List.foldl_nil, UInt8.toNat_ofNat']
  omega

theorem value_reverse_cons (word : UInt32) (words : List UInt32) :
    value (word :: words).reverse = value words.reverse + base ^ words.length * word.toNat := by
  rw [List.reverse_cons, value_append, List.length_reverse]
  simp

/-- Words read from bytes, the highest first: there are as many as fit, with the number that the
bytes are. -/
theorem ofBytes_spec (n : Nat) (bytes : List UInt8) (full : bytes.length = 4 * n) :
    (ofBytes bytes).length = n ∧ value (ofBytes bytes).reverse = bigEndian bytes := by
  induction n generalizing bytes with
  | zero =>
    have none : bytes = [] := List.length_eq_zero_iff.mp full
    rw [none]
    exact ⟨rfl, rfl⟩
  | succ n ih =>
    match bytes, full with
    | a :: b :: c :: d :: rest, full =>
      have more : rest.length = 4 * n := by
        simp only [List.length_cons] at full
        omega
      obtain ⟨words, number⟩ := ih rest more
      have whole : bigEndian (a :: b :: c :: d :: rest) =
          bigEndian [a, b, c, d] * 256 ^ rest.length + bigEndian rest :=
        bigEndian_append [a, b, c, d] rest
      have power : base ^ n = 256 ^ rest.length := by
        rw [more, Nat.pow_mul]
        rfl
      refine ⟨by rw [ofBytes, List.length_cons, words], ?_⟩
      rw [ofBytes, value_reverse_cons, words, number, toNat_be32, whole, power]
      ring
    | [], full => cases full
    | [a], full => simp only [List.length_cons, List.length_nil] at full; omega
    | [a, b], full => simp only [List.length_cons, List.length_nil] at full; omega
    | [a, b, c], full => simp only [List.length_cons, List.length_nil] at full; omega

theorem length_toBytes (words : List UInt32) : (toBytes words).length = 4 * words.length := by
  induction words with
  | nil => rfl
  | cons word words ih =>
    rw [toBytes, List.flatMap_cons, List.length_append, List.length_cons]
    rw [toBytes] at ih
    rw [ih]
    simp only [bytesOf, List.length_cons, List.length_nil]
    omega

theorem bigEndian_toBytes (words : List UInt32) :
    bigEndian (toBytes words.reverse) = value words := by
  obtain ⟨reversed, isReverse⟩ : ∃ l, words = List.reverse l := ⟨_, (List.reverse_reverse _).symm⟩
  subst isReverse
  rw [List.reverse_reverse]
  induction reversed with
  | nil => rfl
  | cons word words ih =>
    have power : base ^ words.length = 256 ^ (4 * words.length) := by
      rw [Nat.pow_mul]
      rfl
    have whole : toBytes (word :: words) = bytesOf word ++ toBytes words := List.flatMap_cons
    rw [value_reverse_cons, whole, bigEndian_append, bigEndian_bytesOf, length_toBytes, ih, power]
    ring

end Words
