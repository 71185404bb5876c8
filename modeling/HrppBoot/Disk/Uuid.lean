import HrppBoot.Disk.GptRestore
import Mathlib.Tactic.IntervalCases

/-!
# Identifiers as text

`lib/uuid.c`: an identifier is text in one of two formats. The fields of the text are read as
numbers and stored in the byte order of the format; the bytes are printed in the order of a table.
`gpt_fill_pte` reads a partition's identifier in one format, and `get_partition_info_efi` prints it
in the other one.
-/

namespace HrppBoot.Disk.Uuid

open ByteMemory LittleEndian

/-! ## From text to bytes -/

/-- The loop of `simple_strtoul` and `simple_strtoull` with base 16, on numbers of `width` bits. -/
def strtoulLoop (width result : Nat) : List UInt8 → Nat
  | [] => result
  | c :: cp =>
    match hexDigit c with
    | none => result
    | some value => strtoulLoop width ((result * 16 + value.toNat) % 2 ^ width) cp

/-- `simple_strtoul` and `simple_strtoull` with base 16. -/
def simpleStrtoul (width : Nat) : List UInt8 → Nat
  | 0x30 :: cp =>
    if cp.head? = some 0x78 ∧ (cp[1]?.bind hexDigit).isSome then strtoulLoop width 0 (cp.drop 1)
    else strtoulLoop width 0 cp
  | cp => strtoulLoop width 0 cp

/-- The bytes of a number in memory behind `cpu_to_be`. -/
def beBytes (count number : Nat) : List UInt8 := (leBytes count number).reverse

/-- The bytes of a number in memory behind the conversion of a format. -/
def fieldBytes (format : UuidFormat) (count number : Nat) : List UInt8 :=
  match format with
  | .std => beBytes count number
  | .guid => leBytes count number

/-- `uuid_str_to_bin`, field by field. -/
def strToBin (uuidStr : List UInt8) (format : UuidFormat) : Option (List UInt8) :=
  if uuidStrValid uuidStr then
    some (fieldBytes format 4 (simpleStrtoul 32 uuidStr) ++
      (fieldBytes format 2 (simpleStrtoul 32 (uuidStr.drop 9)) ++
      (fieldBytes format 2 (simpleStrtoul 32 (uuidStr.drop 14)) ++
      (beBytes 2 (simpleStrtoul 32 (uuidStr.drop 19)) ++
      (beBytes 8 (simpleStrtoul 64 (uuidStr.drop 24))).drop 2))))
  else none

/-! ## From bytes to text -/

/-- A digit of `%x`. -/
def lowerDigit (value : UInt8) : UInt8 := if value < 10 then 48 + value else 87 + value

/-- `%02x` -/
def hexText (byte : UInt8) : List UInt8 := [lowerDigit (byte / 16), lowerDigit (byte % 16)]

/-- `uuid_char_order` and `guid_char_order` -/
def charOrder : UuidFormat → List Nat
  | .std => [0, 1, 2, 3, 4, 5, 6, 7, 8, 9, 10, 11, 12, 13, 14, 15]
  | .guid => [3, 2, 1, 0, 5, 4, 7, 6, 8, 9, 10, 11, 12, 13, 14, 15]

/-- Sixteen texts, with a dash behind the fourth, the sixth, the eighth and the tenth. -/
def dashed (text : Nat → List UInt8) : List UInt8 :=
  (List.range 16).flatMap fun i =>
    if i = 3 ∨ i = 5 ∨ i = 7 ∨ i = 9 then text i ++ [45] else text i

/-- `uuid_bin_to_str` -/
def binToStr (uuidBin : Guid) (format : UuidFormat) : List UInt8 :=
  dashed fun i => hexText (uuidBin.bytes.getD ((charOrder format).getD i 0) 0)

/-- `uuid` of what `get_partition_info_efi` fills in. -/
def reportedUuid (info : PartitionInfo) : List UInt8 := binToStr info.uuid .guid

/-- `tolower` -/
def lower (c : UInt8) : UInt8 := if 65 ≤ c ∧ c ≤ 90 then c + 32 else c

/-! ## Digits -/

theorem hexDigit_some {c value : UInt8} (isDigit : hexDigit c = some value) :
    value.toNat < 16 ∧ lowerDigit value = lower c := by
  have every : ∀ n : Fin 256, (hexDigit (.ofNat n)).all fun value =>
      value.toNat < 16 ∧ lowerDigit value = lower (.ofNat n) := by
    decide +kernel
  have here := every ⟨c.toNat, c.toNat_lt⟩
  rw [UInt8.ofNat_toNat, isDigit] at here
  exact of_decide_eq_true here

theorem hexDigit_lowerDigit {value : UInt8} (small : value < 16) :
    hexDigit (lowerDigit value) = some value := by
  have every : ∀ n : Fin 16, hexDigit (lowerDigit (.ofNat n)) = some (.ofNat n) := by
    decide +kernel
  have here := every ⟨value.toNat, UInt8.lt_iff_toNat_lt.mp small⟩
  rwa [UInt8.ofNat_toNat] at here

theorem byte_digits (byte : UInt8) :
    byte / 16 < 16 ∧ byte % 16 < 16 ∧ 16 * (byte / 16) + byte % 16 = byte := by
  have bound := byte.toNat_lt
  refine ⟨?_, ?_, ?_⟩
  · rw [UInt8.lt_iff_toNat_lt, UInt8.toNat_div]
    change byte.toNat / 16 < 16
    omega
  · rw [UInt8.lt_iff_toNat_lt, UInt8.toNat_mod]
    change byte.toNat % 16 < 16
    omega
  · apply UInt8.toNat_inj.mp
    rw [UInt8.toNat_add, UInt8.toNat_mul, UInt8.toNat_div, UInt8.toNat_mod]
    change (16 * (byte.toNat / 16) % 2 ^ 8 + byte.toNat % 16) % 2 ^ 8 = byte.toNat
    omega

theorem digits_byte {high low : UInt8} (highFits : high.toNat < 16) (lowFits : low.toNat < 16) :
    (16 * high + low).toNat = 16 * high.toNat + low.toNat ∧ (16 * high + low) / 16 = high ∧
      (16 * high + low) % 16 = low := by
  have whole : (16 * high + low).toNat = 16 * high.toNat + low.toNat := by
    rw [UInt8.toNat_add, UInt8.toNat_mul]
    change (16 * high.toNat % 2 ^ 8 + low.toNat) % 2 ^ 8 = _
    omega
  refine ⟨whole, UInt8.toNat_inj.mp ?_, UInt8.toNat_inj.mp ?_⟩
  · rw [UInt8.toNat_div, whole]
    change (16 * high.toNat + low.toNat) / 16 = _
    omega
  · rw [UInt8.toNat_mod, whole]
    change (16 * high.toNat + low.toNat) % 16 = _
    omega

/-! ## Fields -/

section Fields

variable {s : List UInt8}

theorem valid_iff : uuidStrValid s = true ↔ s.length = 36 ∧ ∀ i < 36,
    if i = 8 ∨ i = 13 ∨ i = 18 ∨ i = 23 then s.getD i 0 = 45
    else (hexDigit (s.getD i 0)).isSome = true := by
  rw [uuidStrValid, Bool.and_eq_true, decide_eq_true_eq, List.all_eq_true]
  refine and_congr_right fun _ => forall_congr' fun i => ?_
  rw [List.mem_range]
  refine imp_congr_right fun _ => ?_
  split <;> simp

def DigitsAt (s : List UInt8) (p : Nat) : Prop :=
  p + 1 < s.length ∧ (hexDigit (s.getD p 0)).isSome = true ∧
    (hexDigit (s.getD (p + 1) 0)).isSome = true

variable {p width : Nat}

theorem valid_digits (valid : uuidStrValid s = true) (place : p ∈ UuidFormat.std.places) :
    DigitsAt s p := by
  obtain ⟨long, chars⟩ := valid_iff.mp valid
  have inside : ∀ p ∈ UuidFormat.std.places, p + 1 < 36 ∧
      ¬(p = 8 ∨ p = 13 ∨ p = 18 ∨ p = 23) ∧
      ¬(p + 1 = 8 ∨ p + 1 = 13 ∨ p + 1 = 18 ∨ p + 1 = 23) := by
    decide
  obtain ⟨less, first, second⟩ := inside p place
  have high := chars p (by omega)
  have low := chars (p + 1) less
  rw [if_neg first] at high
  rw [if_neg second] at low
  exact ⟨by omega, high, low⟩

theorem DigitsAt.hexText (digits : DigitsAt s p) :
    hexText (hexByte s p) = [lower (s.getD p 0), lower (s.getD (p + 1) 0)] := by
  obtain ⟨-, high, low⟩ := digits
  obtain ⟨high, isHigh⟩ := Option.isSome_iff_exists.mp high
  obtain ⟨low, isLow⟩ := Option.isSome_iff_exists.mp low
  obtain ⟨highFits, highText⟩ := hexDigit_some isHigh
  obtain ⟨lowFits, lowText⟩ := hexDigit_some isLow
  obtain ⟨-, quotient, rest⟩ := digits_byte highFits lowFits
  rw [Uuid.hexText, hexByte, isHigh, isLow, Option.getD_some, Option.getD_some, quotient, rest,
    highText, lowText]

/-- The number of the bytes from a place on. -/
def number (s : List UInt8) (p : Nat) : Nat → Nat
  | 0 => 0
  | count + 1 => number s p count * 256 + (hexByte s (p + 2 * count)).toNat

theorem number_lt (s : List UInt8) (p count : Nat) : number s p count < 256 ^ count := by
  induction count with
  | zero => exact Nat.one_pos
  | succ count ih =>
    have byte := (hexByte s (p + 2 * count)).toNat_lt
    rw [number, Nat.pow_succ]
    omega

theorem beBytes_number (s : List UInt8) (p count : Nat) :
    beBytes count (number s p count) = (List.range count).map fun j => hexByte s (p + 2 * j) := by
  induction count with
  | zero => rfl
  | succ count ih =>
    have byte := (hexByte s (p + 2 * count)).toNat_lt
    have high : number s p (count + 1) / 256 = number s p count := by
      rw [number]
      omega
    have low : UInt8.ofNat (number s p (count + 1)) = hexByte s (p + 2 * count) := by
      apply UInt8.toNat_inj.mp
      rw [UInt8.toNat_ofNat', number]
      omega
    rw [beBytes, leBytes, high, low, List.reverse_cons, ← beBytes, ih, List.range_succ,
      List.map_append, List.map_singleton]

theorem strtoulLoop_digits {result : Nat} (digits : DigitsAt s p)
    (fits : result * 256 + 255 < 2 ^ width) :
    strtoulLoop width result (s.drop p) =
      strtoulLoop width (result * 256 + (hexByte s p).toNat) (s.drop (p + 2)) := by
  obtain ⟨inside, high, low⟩ := digits
  obtain ⟨high, isHigh⟩ := Option.isSome_iff_exists.mp high
  obtain ⟨low, isLow⟩ := Option.isSome_iff_exists.mp low
  have highFits := (hexDigit_some isHigh).1
  have lowFits := (hexDigit_some isLow).1
  have byte : (hexByte s p).toNat = 16 * high.toNat + low.toNat := by
    rw [hexByte, isHigh, isLow, Option.getD_some, Option.getD_some]
    exact (digits_byte highFits lowFits).1
  have front : p < s.length := by omega
  rw [List.getD_eq_getElem?_getD, List.getElem?_eq_getElem front, Option.getD_some] at isHigh
  rw [List.getD_eq_getElem?_getD, List.getElem?_eq_getElem inside, Option.getD_some] at isLow
  rw [List.drop_eq_getElem_cons front, strtoulLoop, isHigh, List.drop_eq_getElem_cons inside]
  dsimp only
  rw [strtoulLoop, isLow]
  dsimp only
  rw [Nat.mod_eq_of_lt (by omega : result * 16 + high.toNat < 2 ^ width), byte,
    Nat.mod_eq_of_lt (by omega), show (result * 16 + high.toNat) * 16 + low.toNat =
      result * 256 + (16 * high.toNat + low.toNat) by ring]

theorem strtoulLoop_field {count : Nat} (wide : 256 ^ count ≤ 2 ^ width)
    (digits : ∀ j < count, DigitsAt s (p + 2 * j))
    (ends : ∀ c ∈ s[p + 2 * count]?, hexDigit c = none) :
    strtoulLoop width 0 (s.drop p) = number s p count := by
  have upTo (k : Nat) (inside : k ≤ count) :
      strtoulLoop width 0 (s.drop p) = strtoulLoop width (number s p k) (s.drop (p + 2 * k)) := by
    induction k with
    | zero => rfl
    | succ k ih =>
      have small := number_lt s p k
      have power : 256 ^ k * 256 ≤ 256 ^ count := by
        rw [← Nat.pow_succ]
        exact Nat.pow_le_pow_right (by decide) inside
      rw [ih (by omega), strtoulLoop_digits (digits k inside) (by omega)]
      rfl
  rw [upTo count (Nat.le_refl _)]
  cases rest : s.drop (p + 2 * count) with
  | nil => rfl
  | cons c rest =>
    have isNext : s[p + 2 * count]? = some c := by
      rw [← List.head?_drop, rest]
      rfl
    rw [strtoulLoop, ends c isNext]

theorem simpleStrtoul_eq (width : Nat) {cp : List UInt8} (plain : cp[1]? ≠ some 0x78) :
    simpleStrtoul width cp = strtoulLoop width 0 cp := by
  unfold simpleStrtoul
  split
  · rename_i cp
    have other : cp.head? ≠ some 0x78 := by
      rwa [List.head?_eq_getElem?]
    rw [if_neg fun both => other both.1]
    rfl
  · rfl

theorem simpleStrtoul_field {count : Nat} (wide : 256 ^ (count + 1) ≤ 2 ^ width)
    (digits : ∀ j < count + 1, DigitsAt s (p + 2 * j))
    (ends : ∀ c ∈ s[p + 2 * (count + 1)]?, hexDigit c = none) :
    simpleStrtoul width (s.drop p) = number s p (count + 1) := by
  rw [simpleStrtoul_eq width ?_, strtoulLoop_field wide digits ends]
  intro isX
  obtain ⟨-, -, low⟩ := digits 0 (Nat.succ_pos count)
  rw [List.getElem?_drop] at isX
  rw [List.getD_eq_getElem?_getD, Nat.mul_zero, Nat.add_zero, isX] at low
  exact absurd low (by decide)

theorem valid_ends (valid : uuidStrValid s = true)
    (place : p = 8 ∨ p = 13 ∨ p = 18 ∨ p = 23 ∨ p = 36) : ∀ c ∈ s[p]?, hexDigit c = none := by
  obtain ⟨long, chars⟩ := valid_iff.mp valid
  intro c isChar
  have inside : p < s.length := (List.getElem?_eq_some_iff.mp isChar).1
  have isDash := chars p (by omega)
  rw [if_pos (by omega), List.getD_eq_getElem?_getD, isChar, Option.getD_some] at isDash
  rw [isDash]
  rfl

theorem valid_field (valid : uuidStrValid s = true) {p width count : Nat}
    (wide : 256 ^ (count + 1) ≤ 2 ^ width)
    (places : ∀ j < count + 1, p + 2 * j ∈ UuidFormat.std.places)
    (behind : p + 2 * (count + 1) = 8 ∨ p + 2 * (count + 1) = 13 ∨ p + 2 * (count + 1) = 18 ∨
      p + 2 * (count + 1) = 23 ∨ p + 2 * (count + 1) = 36) :
    beBytes (count + 1) (simpleStrtoul width (s.drop p)) =
      (List.range (count + 1)).map fun j => hexByte s (p + 2 * j) := by
  rw [simpleStrtoul_field wide (fun j less => valid_digits valid (places j less))
    (valid_ends valid behind), beBytes_number]

theorem leBytes_eq (count number : Nat) :
    leBytes count number = (beBytes count number).reverse := by
  rw [beBytes, List.reverse_reverse]

theorem drop_beBytes (number : Nat) : (beBytes 8 number).drop 2 = beBytes 6 number := rfl

theorem strToBin_eq (s : List UInt8) (format : UuidFormat) :
    strToBin s format = (uuidStrToBin s format).map Guid.bytes := by
  rw [strToBin, uuidStrToBin]
  by_cases valid : uuidStrValid s = true
  · have first := @valid_field s valid 0 32 3 (by decide) (by decide) (by decide)
    have second := @valid_field s valid 9 32 1 (by decide) (by decide) (by decide)
    have third := @valid_field s valid 14 32 1 (by decide) (by decide) (by decide)
    have fourth := @valid_field s valid 19 32 1 (by decide) (by decide) (by decide)
    have fifth := @valid_field s valid 24 64 5 (by decide) (by decide) (by decide)
    rw [List.drop_zero] at first
    rw [if_pos valid, if_pos valid, Option.map_some, fourth, drop_beBytes, fifth]
    cases format with
    | std =>
      simp only [fieldBytes]
      rw [first, second, third]
      rfl
    | guid =>
      simp only [fieldBytes, leBytes_eq]
      rw [first, second, third]
      rfl
  · rw [if_neg valid, if_neg valid]
    rfl

end Fields

/-! ## Round trips -/

section RoundTrip

variable {s : List UInt8}

/-- The place of the digits that are printed first, second and so on. -/
def place (i : Nat) : Nat := UuidFormat.std.places.getD i 0

theorem dashed_congr {text text' : Nat → List UInt8} (same : ∀ i < 16, text i = text' i) :
    dashed text = dashed text' := by
  rw [dashed, dashed, List.flatMap_def, List.flatMap_def]
  refine congrArg List.flatten (List.map_congr_left fun i inside => ?_)
  rw [same i (List.mem_range.mp inside)]

theorem dashed_pairs (char : Nat → UInt8) :
    dashed (fun i => [char (place i), char (place i + 1)]) = (List.range 36).map fun p =>
      if p = 8 ∨ p = 13 ∨ p = 18 ∨ p = 23 then 45 else char p := rfl

theorem dashed_lower (valid : uuidStrValid s = true) :
    dashed (fun i => [lower (s.getD (place i) 0), lower (s.getD (place i + 1) 0)]) =
      s.map lower := by
  obtain ⟨long, chars⟩ := valid_iff.mp valid
  refine (dashed_pairs fun p => lower (s.getD p 0)).trans ?_
  refine List.ext_getElem (by simp [long]) fun p inside _ => ?_
  have less : p < 36 := by simpa using inside
  have isChar : s.getD p 0 = s[p] := by
    rw [List.getD_eq_getElem?_getD, List.getElem?_eq_getElem (by omega), Option.getD_some]
  have isDash := chars p less
  simp only [List.getElem_map, List.getElem_range]
  split
  · rename_i dash
    rw [if_pos dash, isChar] at isDash
    rw [isDash]
    rfl
  · rw [isChar]

variable {i : Nat}

theorem charOrder_charOrder (format : UuidFormat) (inside : i < 16) :
    (charOrder format).getD i 0 < 16 ∧
      (charOrder format).getD ((charOrder format).getD i 0) 0 = i := by
  have every : ∀ format ∈ [UuidFormat.std, .guid], ∀ i < 16, (charOrder format).getD i 0 < 16 ∧
      (charOrder format).getD ((charOrder format).getD i 0) 0 = i := by
    decide
  exact every format (by cases format <;> simp) i inside

theorem places_eq (format : UuidFormat) :
    format.places = (List.range 16).map fun i => place ((charOrder format).getD i 0) := by
  cases format <;> rfl

theorem strToBin_getD (s : List UInt8) (format : UuidFormat) (inside : i < 16) :
    (format.places.map (hexByte s)).getD i 0 =
      hexByte s (place ((charOrder format).getD i 0)) := by
  rw [places_eq, List.map_map, List.getD_eq_getElem?_getD, List.getElem?_map,
    List.getElem?_range inside]
  rfl

theorem binToStr_strToBin (valid : uuidStrValid s = true) {reading writing : UuidFormat} {b : Guid}
    (isRead : uuidStrToBin s reading = some b) :
    binToStr b writing = dashed fun i => hexText (hexByte s
      (place ((charOrder reading).getD ((charOrder writing).getD i 0) 0))) := by
  rw [uuidStrToBin, if_pos valid] at isRead
  obtain rfl := Option.some.inj isRead
  rw [binToStr]
  refine dashed_congr fun i inside => ?_
  dsimp only
  rw [strToBin_getD s reading (charOrder_charOrder writing inside).1]

theorem str_bin_str {format : UuidFormat} {b : Guid} (isRead : uuidStrToBin s format = some b) :
    binToStr b format = s.map lower := by
  have valid : uuidStrValid s = true := by
    by_contra invalid
    rw [uuidStrToBin, if_neg invalid] at isRead
    cases isRead
  rw [binToStr_strToBin valid isRead, ← dashed_lower valid]
  refine dashed_congr fun i inside => ?_
  rw [(charOrder_charOrder format inside).2]
  have isPlace : ∀ i < 16, place i ∈ UuidFormat.std.places := by decide
  exact (valid_digits valid (isPlace i inside)).hexText

theorem dashed_hexText (byte : Nat → UInt8) (inside : i < 16) :
    (dashed fun i => hexText (byte i)).getD (place i) 0 = lowerDigit (byte i / 16) ∧
      (dashed fun i => hexText (byte i)).getD (place i + 1) 0 = lowerDigit (byte i % 16) := by
  interval_cases i <;> exact ⟨rfl, rfl⟩

theorem valid_dashed (byte : Nat → UInt8) :
    uuidStrValid (dashed fun i => hexText (byte i)) = true := by
  refine valid_iff.mpr ⟨rfl, fun p inside => ?_⟩
  by_cases dash : p = 8 ∨ p = 13 ∨ p = 18 ∨ p = 23
  · rw [if_pos dash]
    rcases dash with rfl | rfl | rfl | rfl <;> rfl
  · rw [if_neg dash]
    have every : ∀ p < 36, ¬(p = 8 ∨ p = 13 ∨ p = 18 ∨ p = 23) →
        ∃ i < 16, p = place i ∨ p = place i + 1 := by
      decide
    obtain ⟨i, less, isPlace⟩ := every p inside dash
    obtain ⟨high, low⟩ := dashed_hexText byte less
    obtain ⟨highFits, lowFits, -⟩ := byte_digits (byte i)
    rcases isPlace with rfl | rfl
    · rw [high, hexDigit_lowerDigit highFits]
      rfl
    · rw [low, hexDigit_lowerDigit lowFits]
      rfl

theorem hexByte_dashed (byte : Nat → UInt8) (inside : i < 16) :
    hexByte (dashed fun i => hexText (byte i)) (place i) = byte i := by
  obtain ⟨high, low⟩ := dashed_hexText byte inside
  obtain ⟨highFits, lowFits, whole⟩ := byte_digits (byte i)
  rw [hexByte, high, low, hexDigit_lowerDigit highFits, hexDigit_lowerDigit lowFits]
  exact whole

theorem bin_str_bin (b : Guid) (format : UuidFormat) :
    uuidStrToBin (binToStr b format) format = some b := by
  have valid : uuidStrValid (binToStr b format) = true := valid_dashed _
  rw [uuidStrToBin, if_pos valid, Option.some_inj]
  refine Guid.ext (List.ext_getElem ?_ fun i inside less => ?_)
  · rw [Guid.sized, Guid.sized]
  · have small : i < 16 := by rwa [b.sized] at less
    obtain ⟨orderFits, twice⟩ := charOrder_charOrder format small
    have read := strToBin_getD (binToStr b format) format small
    rw [List.getD_eq_getElem?_getD, List.getElem?_eq_getElem inside, Option.getD_some] at read
    refine read.trans ((hexByte_dashed _ orderFits).trans ?_)
    rw [twice, List.getD_eq_getElem?_getD, List.getElem?_eq_getElem less, Option.getD_some]

end RoundTrip

/-! ## Partitions -/

/-- The first three fields of a text stand for the same bytes the other way round. -/
def Mirrored (uuid : List UInt8) : Prop :=
  hexByte uuid 0 = hexByte uuid 6 ∧ hexByte uuid 2 = hexByte uuid 4 ∧
    hexByte uuid 9 = hexByte uuid 11 ∧ hexByte uuid 14 = hexByte uuid 16

/-- An identifier that is read in one format and printed in the other one is the same text if its
first three fields are mirrored. -/
theorem binToStr_guid_iff {s : List UInt8} {b : Guid} (isRead : uuidStrToBin s .std = some b) :
    binToStr b .guid = s.map lower ↔ Mirrored s := by
  have valid : uuidStrValid s = true := by
    by_contra invalid
    rw [uuidStrToBin, if_neg invalid] at isRead
    cases isRead
  have digits : ∀ i < 16, DigitsAt s (place i) := by
    have isPlace : ∀ i < 16, place i ∈ UuidFormat.std.places := by decide
    exact fun i inside => valid_digits valid (isPlace i inside)
  have plain : ∀ i < 16, (charOrder .std).getD i 0 = i := by decide
  have read : binToStr b .guid = _ := binToStr_strToBin valid isRead
  have same := str_bin_str isRead
  rw [binToStr_strToBin valid isRead] at same
  rw [← same, read]
  constructor
  · intro texts
    have bytes : ∀ i < 16,
        hexByte s (place ((charOrder .guid).getD i 0)) = hexByte s (place i) := by
      intro i inside
      have printed := hexByte_dashed
        (fun i => hexByte s (place ((charOrder .std).getD ((charOrder .guid).getD i 0) 0))) inside
      rw [texts, hexByte_dashed _ inside] at printed
      rw [plain _ (charOrder_charOrder .guid inside).1,
        (charOrder_charOrder .std inside).2] at printed
      exact printed.symm
    exact ⟨bytes 3 (by decide), bytes 2 (by decide), bytes 5 (by decide), bytes 7 (by decide)⟩
  · rintro ⟨first, second, third, fourth⟩
    refine dashed_congr fun i inside => ?_
    rw [plain _ (charOrder_charOrder .guid inside).1, (charOrder_charOrder .std inside).2]
    refine congrArg hexText ?_
    interval_cases i
    · exact first.symm
    · exact second.symm
    · exact second
    · exact first
    · exact third.symm
    · exact third
    · exact fourth.symm
    · exact fourth
    all_goals rfl

/-- The entry of a partition is in use, fits its record and has the identifier of the partition. -/
structure FilledFrom (p : DiskPartition) (e : GptEntry) : Prop where
  uuid : uuidStrToBin p.uuid .std = some e.uniquePartitionGuid
  usable : e.Fits ∧ isPteValid e

/-- `gpt_fill_pte` fills an entry from each partition. -/
theorem fillPteLoop_filledFrom {lastUsable : Nat} (narrow : lastUsable < 2 ^ 32)
    {partitions : List DiskPartition} {offset : Nat} (small : offset < 2 ^ 32)
    {entries : List GptEntry} (filled : fillPteLoop lastUsable offset partitions = some entries) :
    List.Forall₂ FilledFrom partitions entries := by
  induction partitions generalizing offset entries with
  | nil =>
    obtain rfl := Option.some.inj filled
    exact .nil
  | cons p rest ih =>
    have begins : (if p.start ≠ 0 then p.start else offset) = p.startFrom offset := rfl
    have fits : p.startFrom offset < 2 ^ 64 := by
      have startFits := p.startFits
      unfold DiskPartition.startFrom
      split <;> omega
    simp only [fillPteLoop, begins] at filled
    split at filled
    case isTrue => cases filled
    case isFalse =>
      split at filled
      case isTrue => cases filled
      case isFalse =>
        split at filled
        case h_1 => cases filled
        case h_2 guid known =>
          split at filled
          case h_1 => cases filled
          case h_2 later more =>
            obtain rfl := Option.some.inj filled
            refine .cons ⟨known, fillEntry_usable p guid fits ?_⟩ (ih (lbaint_lt _) more)
            split
            · omega
            · exact Nat.lt_trans (lbaint_lt _) (by decide)

/-- The identifier that is reported of each partition is the one that was asked for. -/
def UuidsReported (dev : BlockDev) (disk : Memory) (partitions : List DiskPartition) : Prop :=
  ∀ i (inside : i < partitions.length), ∃ info, getPartitionInfoEfi dev disk (i + 1) = some info ∧
    (reportedUuid info).map lower = partitions[i].uuid.map lower

theorem lower_binToStr (b : Guid) (format : UuidFormat) :
    (binToStr b format).map lower = binToStr b format :=
  (str_bin_str (bin_str_bin b format)).symm

section Restored

variable {dev : BlockDev} {disk restored : Memory} {strDiskGuid : List UInt8}
  {partitions : List DiskPartition}

theorem restored_uuid (room : 67 ≤ dev.lba) (few : partitions.length ≤ gptEntryNumbers)
    (accepted : gptRestore dev disk strDiskGuid partitions = some restored) {i : Nat}
    (inside : i < partitions.length) :
    ∃ info b, getPartitionInfoEfi dev restored (i + 1) = some info ∧
      uuidStrToBin partitions[i].uuid .std = some b ∧ reportedUuid info = binToStr b .guid := by
  have narrow := dev.narrow
  obtain ⟨guid, entries, filled, written⟩ := gptRestore_some (by omega) accepted
  have each := fillPteLoop_filledFrom (by omega) (by decide) filled
  have count : entries.length = partitions.length := each.length_eq.symm
  have usable : ∀ e ∈ entries, e.Fits ∧ isPteValid e := by
    intro e member
    obtain ⟨j, less, rfl⟩ := List.getElem_of_mem member
    exact (each.get (by omega) less).usable
  have intact : Survives dev restored restored := ⟨fun _ _ => rfl, .inr fun _ _ => rfl⟩
  have read := restored_info room (by omega) usable written intact (by omega : i < entries.length)
  exact ⟨_, _, read, (each.get inside (by omega)).uuid, rfl⟩

theorem uuidsReported_iff (room : 67 ≤ dev.lba) (few : partitions.length ≤ gptEntryNumbers)
    (accepted : gptRestore dev disk strDiskGuid partitions = some restored) :
    UuidsReported dev restored partitions ↔ ∀ p ∈ partitions, Mirrored p.uuid := by
  rw [List.forall_mem_iff_forall_getElem]
  refine forall₂_congr fun i inside => ?_
  obtain ⟨info, b, found, isRead, isPrinted⟩ := restored_uuid room few accepted inside
  rw [← binToStr_guid_iff isRead, found]
  constructor
  · rintro ⟨info', same, texts⟩
    obtain rfl := Option.some.inj same
    rwa [isPrinted, lower_binToStr] at texts
  · intro texts
    exact ⟨info, rfl, by rw [isPrinted, lower_binToStr, texts]⟩

end Restored

/-- Identifiers that are printed and read in one format come back, and so do texts that are read
and printed; the identifiers of restored partitions are reported as they were asked for exactly if
each of them has its first three fields mirrored. -/
theorem uuid_round_trips (dev : BlockDev) (disk restored : Memory) (strDiskGuid : List UInt8)
    (partitions : List DiskPartition) (room : 67 ≤ dev.lba)
    (few : partitions.length ≤ gptEntryNumbers)
    (accepted : gptRestore dev disk strDiskGuid partitions = some restored) :
    (∀ (b : Guid) (format : UuidFormat), strToBin (binToStr b format) format = some b.bytes) ∧
    (∀ (s : List UInt8) (format : UuidFormat), uuidStrValid s = true →
      ∃ b : Guid, strToBin s format = some b.bytes ∧ binToStr b format = s.map lower) ∧
    (UuidsReported dev restored partitions ↔ ∀ p ∈ partitions, Mirrored p.uuid) := by
  refine ⟨fun b format => ?_, fun s format valid => ?_, uuidsReported_iff room few accepted⟩
  · rw [strToBin_eq, bin_str_bin, Option.map_some]
  · cases isRead : uuidStrToBin s format with
    | none =>
      rw [uuidStrToBin, if_pos valid] at isRead
      cases isRead
    | some b =>
      rw [strToBin_eq, isRead]
      exact ⟨b, rfl, str_bin_str isRead⟩

/-- `1a2b2b1a-3c3c-4d4d-5e6f-708192a3b4c5` -/
def mirroredUuid : List UInt8 :=
  [49, 97, 50, 98, 50, 98, 49, 97, 45, 51, 99, 51, 99, 45, 52, 100, 52, 100, 45, 53, 101, 54, 102,
    45, 55, 48, 56, 49, 57, 50, 97, 51, 98, 52, 99, 53]

theorem oneStart_fits : 0 < 2 ^ 32 := by decide

theorem oneSize_fits : 100 < 2 ^ 32 := by decide

/-- A partition with that identifier, behind the one with the identifier of zeros. -/
def mirroredList : List DiskPartition :=
  [samplePartition 0 100 97 oneStart_fits oneSize_fits,
    { samplePartition 0 100 98 oneStart_fits oneSize_fits with uuid := mirroredUuid }]

/-- Both identifiers are reported as they were asked for. -/
theorem mirrored_reported :
    ∃ restored, gptRestore sampleDev Memory.blank sampleUuid mirroredList = some restored ∧
      UuidsReported sampleDev restored mirroredList := by
  have accepted : (gptRestore sampleDev Memory.blank sampleUuid mirroredList).isSome := by
    decide +kernel
  obtain ⟨restored, found⟩ := Option.isSome_iff_exists.mp accepted
  refine ⟨restored, found, (uuid_round_trips sampleDev Memory.blank restored sampleUuid mirroredList
    (by decide) (by decide) found).2.2.mpr ?_⟩
  intro p member
  rcases List.mem_cons.mp member with rfl | member
  · exact ⟨rfl, rfl, rfl, rfl⟩
  · obtain rfl := List.mem_singleton.mp member
    exact ⟨rfl, rfl, rfl, rfl⟩

/-- `10000000-0000-0000-0000-000000000000` -/
def oneUuid : List UInt8 := 49 :: sampleUuid.drop 1

def onePartition : DiskPartition :=
  { samplePartition 0 100 97 oneStart_fits oneSize_fits with uuid := oneUuid }

/-- The identifier that was asked for is reported with its first field the other way round. -/
theorem one_not_reported :
    ∃ restored, gptRestore sampleDev Memory.blank sampleUuid [onePartition] = some restored ∧
      ¬UuidsReported sampleDev restored [onePartition] := by
  have accepted : (gptRestore sampleDev Memory.blank sampleUuid [onePartition]).isSome := by
    decide +kernel
  obtain ⟨restored, found⟩ := Option.isSome_iff_exists.mp accepted
  refine ⟨restored, found, fun reported => ?_⟩
  have mirrored := (uuidsReported_iff (by decide) (by decide) found).mp reported onePartition
    List.mem_cons_self
  exact absurd mirrored.1 (by decide)

end HrppBoot.Disk.Uuid
