import HrppBoot.Lib.ByteBits
import Mathlib.Tactic.IntervalCases

/-!
# Error correction of NAND pages

The software code for 256 bytes of data: the parities of the columns and of the lines are three
bytes, which `nand_correct_data` compares with the ones read. A flipped bit changes the comparison
by a value of its own, whatever the data are, and the values of several flipped bits add up.
-/

namespace HrppBoot.Flash.NandEcc

/-! ## The code -/

def nandEccPrecalcTable : List UInt8 := [
  0x00, 0x55, 0x56, 0x03, 0x59, 0x0c, 0x0f, 0x5a, 0x5a, 0x0f, 0x0c, 0x59, 0x03, 0x56, 0x55, 0x00,
  0x65, 0x30, 0x33, 0x66, 0x3c, 0x69, 0x6a, 0x3f, 0x3f, 0x6a, 0x69, 0x3c, 0x66, 0x33, 0x30, 0x65,
  0x66, 0x33, 0x30, 0x65, 0x3f, 0x6a, 0x69, 0x3c, 0x3c, 0x69, 0x6a, 0x3f, 0x65, 0x30, 0x33, 0x66,
  0x03, 0x56, 0x55, 0x00, 0x5a, 0x0f, 0x0c, 0x59, 0x59, 0x0c, 0x0f, 0x5a, 0x00, 0x55, 0x56, 0x03,
  0x69, 0x3c, 0x3f, 0x6a, 0x30, 0x65, 0x66, 0x33, 0x33, 0x66, 0x65, 0x30, 0x6a, 0x3f, 0x3c, 0x69,
  0x0c, 0x59, 0x5a, 0x0f, 0x55, 0x00, 0x03, 0x56, 0x56, 0x03, 0x00, 0x55, 0x0f, 0x5a, 0x59, 0x0c,
  0x0f, 0x5a, 0x59, 0x0c, 0x56, 0x03, 0x00, 0x55, 0x55, 0x00, 0x03, 0x56, 0x0c, 0x59, 0x5a, 0x0f,
  0x6a, 0x3f, 0x3c, 0x69, 0x33, 0x66, 0x65, 0x30, 0x30, 0x65, 0x66, 0x33, 0x69, 0x3c, 0x3f, 0x6a,
  0x6a, 0x3f, 0x3c, 0x69, 0x33, 0x66, 0x65, 0x30, 0x30, 0x65, 0x66, 0x33, 0x69, 0x3c, 0x3f, 0x6a,
  0x0f, 0x5a, 0x59, 0x0c, 0x56, 0x03, 0x00, 0x55, 0x55, 0x00, 0x03, 0x56, 0x0c, 0x59, 0x5a, 0x0f,
  0x0c, 0x59, 0x5a, 0x0f, 0x55, 0x00, 0x03, 0x56, 0x56, 0x03, 0x00, 0x55, 0x0f, 0x5a, 0x59, 0x0c,
  0x69, 0x3c, 0x3f, 0x6a, 0x30, 0x65, 0x66, 0x33, 0x33, 0x66, 0x65, 0x30, 0x6a, 0x3f, 0x3c, 0x69,
  0x03, 0x56, 0x55, 0x00, 0x5a, 0x0f, 0x0c, 0x59, 0x59, 0x0c, 0x0f, 0x5a, 0x00, 0x55, 0x56, 0x03,
  0x66, 0x33, 0x30, 0x65, 0x3f, 0x6a, 0x69, 0x3c, 0x3c, 0x69, 0x6a, 0x3f, 0x65, 0x30, 0x33, 0x66,
  0x65, 0x30, 0x33, 0x66, 0x3c, 0x69, 0x6a, 0x3f, 0x3f, 0x6a, 0x69, 0x3c, 0x66, 0x33, 0x30, 0x65,
  0x00, 0x55, 0x56, 0x03, 0x59, 0x0c, 0x0f, 0x5a, 0x5a, 0x0f, 0x0c, 0x59, 0x03, 0x56, 0x55, 0x00]

/-- Three bytes of parities: `reg1` to `reg3` of `nand_calculate_ecc`, or the bytes of a code. -/
@[ext]
structure Parities where
  byte0 : UInt8
  byte1 : UInt8
  byte2 : UInt8
  deriving DecidableEq

namespace Parities

instance : XorOp Parities where
  xor a b := ⟨a.byte0 ^^^ b.byte0, a.byte1 ^^^ b.byte1, a.byte2 ^^^ b.byte2⟩

instance : Zero Parities := ⟨⟨0, 0, 0⟩⟩

variable (a b c : Parities)

@[simp] theorem byte0_xor : (a ^^^ b).byte0 = a.byte0 ^^^ b.byte0 := rfl

@[simp] theorem byte1_xor : (a ^^^ b).byte1 = a.byte1 ^^^ b.byte1 := rfl

@[simp] theorem byte2_xor : (a ^^^ b).byte2 = a.byte2 ^^^ b.byte2 := rfl

@[simp] theorem byte0_zero : (0 : Parities).byte0 = 0 := rfl

@[simp] theorem byte1_zero : (0 : Parities).byte1 = 0 := rfl

@[simp] theorem byte2_zero : (0 : Parities).byte2 = 0 := rfl

theorem xor_assoc : a ^^^ b ^^^ c = a ^^^ (b ^^^ c) := by
  ext1 <;> simp [UInt8.xor_assoc]

theorem xor_comm : a ^^^ b = b ^^^ a := by
  ext1 <;> simp [UInt8.xor_comm]

@[simp] theorem xor_self : a ^^^ a = 0 := by
  ext1 <;> exact UInt8.xor_self

@[simp] theorem zero_xor : 0 ^^^ a = a := by
  ext1 <;> exact UInt8.zero_xor

end Parities

/-- What the parities `idx` of the byte with the index `i` add to `reg1`, `reg2` and `reg3`. -/
def line (i : Nat) (idx : UInt8) : Parities :=
  if idx &&& 0x40 ≠ 0 then ⟨idx &&& 0x3f, ~~~UInt8.ofNat i, UInt8.ofNat i⟩ else ⟨idx &&& 0x3f, 0, 0⟩

/-- A turn of the loop of `nand_calculate_ecc`. -/
def lineParities (i : Nat) (dat : UInt8) : Parities := line i (nandEccPrecalcTable.getD dat.toNat 0)

/-- The loop of `nand_calculate_ecc` from the index `i` on. -/
def parityLoop : Nat → List UInt8 → Parities → Parities
  | _, [], reg => reg
  | i, dat :: rest, reg => parityLoop (i + 1) rest (reg ^^^ lineParities i dat)

def tmp1 (reg2 reg3 : UInt8) : UInt8 :=
  (reg3 &&& 0x80) >>> 0 ||| (reg2 &&& 0x80) >>> 1 ||| (reg3 &&& 0x40) >>> 1 |||
    (reg2 &&& 0x40) >>> 2 ||| (reg3 &&& 0x20) >>> 2 ||| (reg2 &&& 0x20) >>> 3 |||
    (reg3 &&& 0x10) >>> 3 ||| (reg2 &&& 0x10) >>> 4

def tmp2 (reg2 reg3 : UInt8) : UInt8 :=
  (reg3 &&& 0x08) <<< 4 ||| (reg2 &&& 0x08) <<< 3 ||| (reg3 &&& 0x04) <<< 3 |||
    (reg2 &&& 0x04) <<< 2 ||| (reg3 &&& 0x02) <<< 2 ||| (reg2 &&& 0x02) <<< 1 |||
    (reg3 &&& 0x01) <<< 1 ||| (reg2 &&& 0x01) <<< 0

/-- `ecc_code` from the three registers. -/
def finalEcc (reg : Parities) : Parities :=
  ⟨~~~tmp1 reg.byte1 reg.byte2, ~~~tmp2 reg.byte1 reg.byte2, ~~~reg.byte0 <<< 2 ||| 0x03⟩

def nandCalculateEcc (dat : List UInt8) : Parities := finalEcc (parityLoop 0 (dat.take 256) 0)

/-- The loop of `countbits`; 32 turns leave no bit. -/
def countLoop : Nat → UInt32 → Nat
  | 0, _ => 0
  | turns + 1, byte =>
    if byte = 0 then 0 else (byte &&& 0x01).toNat + countLoop turns (byte >>> 1)

def countbits (byte : UInt32) : Nat := countLoop 32 byte

/-- The value that `nand_correct_data` returns where it cannot correct, `-EBADMSG`. -/
def ebadmsg : Int := -74

/-- `(s ^ (s >> 1)) & mask`: the pairs of bits of which one is set. -/
def pairs (mask s : UInt8) : UInt8 := (s ^^^ s >>> 1) &&& mask

/-- The test for a single bit error. -/
def singleBit (s0 s1 s2 : UInt8) : Bool :=
  pairs 0x55 s0 = 0x55 ∧ pairs 0x55 s1 = 0x55 ∧ pairs 0x54 s2 = 0x54

def byteoffs (s0 s1 : UInt8) : UInt8 :=
  [s1 <<< 0 &&& 0x80, s1 <<< 1 &&& 0x40, s1 <<< 2 &&& 0x20, s1 <<< 3 &&& 0x10,
    s0 >>> 4 &&& 0x08, s0 >>> 3 &&& 0x04, s0 >>> 2 &&& 0x02, s0 >>> 1 &&& 0x01].foldl (· ||| ·) 0

def bitnum (s2 : UInt8) : UInt8 :=
  [s2 >>> 5 &&& 0x04, s2 >>> 4 &&& 0x02, s2 >>> 3 &&& 0x01].foldl (· ||| ·) 0

/-- The three bytes in one word. -/
def syndromeWord (s0 s1 s2 : UInt8) : UInt32 :=
  s0.toUInt32 ||| s1.toUInt32 <<< 8 ||| s2.toUInt32 <<< 16

/-- `nand_correct_data`: the value it returns, and the data it leaves. -/
def nandCorrectData (dat : List UInt8) (readEcc calcEcc : Parities) : Int × List UInt8 :=
  let s1 := calcEcc.byte0 ^^^ readEcc.byte0
  let s0 := calcEcc.byte1 ^^^ readEcc.byte1
  let s2 := calcEcc.byte2 ^^^ readEcc.byte2
  if s0 ||| s1 ||| s2 = 0 then (0, dat)
  else if singleBit s0 s1 s2 then
    (1, dat.modify (byteoffs s0 s1).toNat (· ^^^ 1 <<< bitnum s2))
  else if countbits (syndromeWord s0 s1 s2) = 1 then (1, dat)
  else (ebadmsg, dat)

/-! ## Flipped bits -/

/-- A bit of the data or of the code. -/
inductive Cell where
  | data (i : Fin 256) (bit : Fin 8)
  | code (byte : Fin 3) (bit : Fin 8)
  deriving DecidableEq

/-- 256 bytes of data with their code. -/
structure Chunk where
  data : List UInt8
  code : Parities
  sized : data.length = 256

namespace Chunk

/-- Data with the code that is written for them. -/
def written (data : List UInt8) (sized : data.length = 256) : Chunk :=
  ⟨data, nandCalculateEcc data, sized⟩

/-- The byte in which one bit is set. -/
def mask (bit : Fin 8) : UInt8 := 1 <<< UInt8.ofNat bit

/-- One bit of a code. -/
def unit (byte : Fin 3) (bit : Fin 8) : Parities :=
  match byte with
  | 0 => ⟨mask bit, 0, 0⟩
  | 1 => ⟨0, mask bit, 0⟩
  | 2 => ⟨0, 0, mask bit⟩

/-- The chunk with one bit flipped. -/
def flip (chunk : Chunk) : Cell → Chunk
  | .data i bit => ⟨chunk.data.modify i (· ^^^ mask bit), chunk.code, by simp [chunk.sized]⟩
  | .code byte bit => ⟨chunk.data, chunk.code ^^^ unit byte bit, chunk.sized⟩

/-- What `nand_correct_data` makes of a chunk, with the code that is calculated from its data. -/
def corrected (chunk : Chunk) : Int × List UInt8 :=
  nandCorrectData chunk.data chunk.code (nandCalculateEcc chunk.data)

/-- The difference of the calculated code to the one read. -/
def syndrome (chunk : Chunk) : Parities := nandCalculateEcc chunk.data ^^^ chunk.code

end Chunk

/-- What the flip of a bit changes in the difference. -/
def Cell.syndrome : Cell → Parities
  | .data i bit =>
    let line := lineParities i (Chunk.mask bit)
    ⟨tmp1 line.byte1 line.byte2, tmp2 line.byte1 line.byte2, line.byte0 <<< 2⟩
  | .code byte bit => Chunk.unit byte bit

/-! ## The differences add up -/

section Linear

variable {a b x y : UInt8} {reg s : Parities} {i k : Nat} {data : List UInt8}

theorem tmp1_xor : tmp1 (a ^^^ x) (b ^^^ y) = tmp1 a b ^^^ tmp1 x y := by
  apply UInt8.toBitVec_inj.mp
  apply BitVec.eq_of_getLsbD_eq
  intro i bound
  interval_cases i <;> simp [tmp1]

theorem tmp2_xor : tmp2 (a ^^^ x) (b ^^^ y) = tmp2 a b ^^^ tmp2 x y := by
  apply UInt8.toBitVec_inj.mp
  apply BitVec.eq_of_getLsbD_eq
  intro i bound
  interval_cases i <;> simp [tmp2]

theorem not_xor : ~~~(a ^^^ x) ^^^ ~~~a = x := by
  apply UInt8.toBitVec_inj.mp
  apply BitVec.eq_of_getLsbD_eq
  intro i bound
  simp only [UInt8.toBitVec_xor, UInt8.toBitVec_not, BitVec.getLsbD_xor, BitVec.getLsbD_not, bound]
  cases a.toBitVec.getLsbD i <;> cases x.toBitVec.getLsbD i <;> rfl

theorem column_xor : (a <<< 2 ||| (0x03 : UInt8)) ^^^ (b <<< 2 ||| (0x03 : UInt8)) =
    (a ^^^ b) <<< 2 := by
  apply UInt8.toBitVec_inj.mp
  apply BitVec.eq_of_getLsbD_eq
  intro i bound
  interval_cases i <;> simp

theorem finalEcc_xor : finalEcc (reg ^^^ s) ^^^ finalEcc reg =
    ⟨tmp1 s.byte1 s.byte2, tmp2 s.byte1 s.byte2, s.byte0 <<< 2⟩ := by
  ext1
  · simp only [finalEcc, tmp1_xor, Parities.byte0_xor, Parities.byte1_xor, Parities.byte2_xor,
      not_xor]
  · simp only [finalEcc, tmp2_xor, Parities.byte1_xor, Parities.byte2_xor, not_xor]
  · exact column_xor.trans (congrArg (fun byte : UInt8 => byte <<< 2) not_xor)

theorem parityLoop_xor : parityLoop i data (reg ^^^ s) = parityLoop i data reg ^^^ s := by
  induction data generalizing i reg with
  | nil => rfl
  | cons dat rest ih =>
    rw [parityLoop, parityLoop, Parities.xor_assoc, Parities.xor_comm s, ← Parities.xor_assoc, ih]

/-- The entry for a byte, from those for its bits. -/
def entry (v : Nat) : UInt8 :=
  (List.range 8).foldl
    (fun sum k => sum ^^^ if v.testBit k then nandEccPrecalcTable.getD (2 ^ k) 0 else 0) 0

theorem table_eq : nandEccPrecalcTable = (List.range 256).map entry := by
  decide +kernel

theorem getD_table {v : Nat} (small : v < 256) : nandEccPrecalcTable.getD v 0 = entry v := by
  rw [table_eq, List.getD_eq_getElem?_getD, List.getElem?_map, List.getElem?_range small]
  rfl

theorem entry_xor (v w : Nat) : entry (v ^^^ w) = entry v ^^^ entry w := by
  have sums : ∀ (bits : List Nat) (f : Nat → UInt8) (p q : UInt8),
      bits.foldl (fun sum k => sum ^^^ if (v ^^^ w).testBit k then f k else 0) (p ^^^ q) =
        bits.foldl (fun sum k => sum ^^^ if v.testBit k then f k else 0) p ^^^
          bits.foldl (fun sum k => sum ^^^ if w.testBit k then f k else 0) q := by
    intro bits f
    induction bits with
    | nil => intro p q; rfl
    | cons k rest ih =>
      intro p q
      rw [List.foldl_cons, List.foldl_cons, List.foldl_cons, ← ih, Nat.testBit_xor]
      congr 1
      have twice : p ^^^ f k ^^^ (q ^^^ f k) = p ^^^ q ^^^ (f k ^^^ f k) := by ac_rfl
      cases v.testBit k <;> cases w.testBit k
      · simp
      · simp [UInt8.xor_assoc]
      · simp only [Bool.xor_false, if_true, Bool.false_eq_true, if_false, UInt8.xor_zero]
        ac_rfl
      · simp [twice]
  exact sums _ _ 0 0

theorem table_flip (v : Fin 256) (bit : Fin 8) :
    nandEccPrecalcTable.getD (v ^^^ 2 ^ (bit : Nat)) 0 =
      nandEccPrecalcTable.getD v 0 ^^^ nandEccPrecalcTable.getD (2 ^ (bit : Nat)) 0 := by
  have power : 2 ^ (bit : Nat) < 2 ^ 8 := Nat.pow_lt_pow_right Nat.one_lt_two bit.isLt
  rw [getD_table v.isLt, getD_table power, getD_table (Nat.xor_lt_two_pow v.isLt power), entry_xor]

theorem and_xor (mask : UInt8) : (a ^^^ b) &&& mask = (a &&& mask) ^^^ (b &&& mask) := by
  apply UInt8.toBitVec_inj.mp
  apply BitVec.eq_of_getLsbD_eq
  intro i bound
  simp only [UInt8.toBitVec_and, UInt8.toBitVec_xor, BitVec.getLsbD_and, BitVec.getLsbD_xor]
  exact Bool.and_xor_distrib_right _ _ _

theorem parityBit_eq : a &&& 0x40 = if ByteBits.bit a 6 then 0x40 else 0 := by
  apply UInt8.toNat_inj.mp
  rw [UInt8.toNat_and, ByteBits.bit]
  exact (Nat.and_two_pow a.toNat 6).trans (by cases a.toNat.testBit 6 <;> rfl)

theorem line_xor : line i (a ^^^ b) = line i a ^^^ line i b := by
  unfold line
  rw [and_xor, and_xor, parityBit_eq, parityBit_eq]
  cases ByteBits.bit a 6 <;> cases ByteBits.bit b 6 <;> ext1 <;> simp

theorem lineParities_flip (dat : UInt8) (bit : Fin 8) :
    lineParities i (dat ^^^ Chunk.mask bit) =
      lineParities i dat ^^^ lineParities i (Chunk.mask bit) := by
  have single : (Chunk.mask bit).toNat = 2 ^ (bit : Nat) := by
    revert bit
    decide
  rw [lineParities, lineParities, lineParities, ← line_xor, UInt8.toNat_xor, single]
  exact congrArg (line i) (table_flip ⟨dat.toNat, dat.toNat_lt⟩ bit)

theorem parityLoop_modify (bit : Fin 8) (within : k < data.length) :
    parityLoop i (data.modify k (· ^^^ Chunk.mask bit)) reg =
      parityLoop i data reg ^^^ lineParities (i + k) (Chunk.mask bit) := by
  induction data generalizing i k reg with
  | nil => simp at within
  | cons dat rest ih =>
    cases k with
    | zero =>
      rw [List.modify_zero_cons, parityLoop, parityLoop, lineParities_flip, ← Parities.xor_assoc,
        parityLoop_xor]
      rfl
    | succ k =>
      rw [List.modify_succ_cons, parityLoop, parityLoop, ih (Nat.lt_of_succ_lt_succ within)]
      congr 2
      omega

end Linear

namespace Chunk

variable (chunk : Chunk) {data : List UInt8} {sized : data.length = 256}

theorem nandCalculateEcc_eq :
    nandCalculateEcc chunk.data = finalEcc (parityLoop 0 chunk.data 0) := by
  rw [nandCalculateEcc, List.take_of_length_le (by rw [chunk.sized])]

theorem syndrome_written : (written data sized).syndrome = 0 := Parities.xor_self _

theorem syndrome_flip (cell : Cell) :
    (chunk.flip cell).syndrome = chunk.syndrome ^^^ cell.syndrome := by
  cases cell with
  | data i bit =>
    have within : (i : Nat) < chunk.data.length := chunk.sized.symm ▸ i.isLt
    rw [syndrome, syndrome, nandCalculateEcc_eq, nandCalculateEcc_eq, flip,
      parityLoop_modify bit within, Nat.zero_add]
    have change := @finalEcc_xor (parityLoop 0 chunk.data 0) (lineParities i (mask bit))
    rw [Parities.xor_comm _ chunk.code, Parities.xor_comm _ chunk.code, Parities.xor_assoc,
      Cell.syndrome, ← change, Parities.xor_comm (finalEcc _) (finalEcc (parityLoop 0 _ 0)),
      ← Parities.xor_assoc (finalEcc _), Parities.xor_self, Parities.zero_xor]
  | code byte bit => exact (Parities.xor_assoc _ _ _).symm

theorem corrected_eq : chunk.corrected = nandCorrectData chunk.data 0 chunk.syndrome := by
  simp only [corrected, nandCorrectData, syndrome, Parities.byte0_xor, Parities.byte1_xor,
    Parities.byte2_xor, Parities.byte0_zero, Parities.byte1_zero, Parities.byte2_zero,
    UInt8.xor_zero]

end Chunk

/-! ## One flipped bit -/

/-- The parities of the columns that one bit is in. -/
def column (bit : Fin 8) : UInt8 := (line 0 (nandEccPrecalcTable.getD (2 ^ (bit : Nat)) 0)).byte0

theorem lineParities_mask (i : Nat) (bit : Fin 8) :
    lineParities i (Chunk.mask bit) = ⟨column bit, ~~~UInt8.ofNat i, UInt8.ofNat i⟩ := by
  have odd : ∀ bit : Fin 8, nandEccPrecalcTable.getD (Chunk.mask bit).toNat 0 &&& 0x40 ≠ 0 ∧
      column bit = nandEccPrecalcTable.getD (Chunk.mask bit).toNat 0 &&& 0x3f := by
    decide
  rw [lineParities, line, if_pos (odd bit).1, (odd bit).2]

theorem line_located : ∀ i : Fin 256,
    let s1 := tmp1 (~~~UInt8.ofNat i) (UInt8.ofNat i)
    let s0 := tmp2 (~~~UInt8.ofNat i) (UInt8.ofNat i)
    pairs 0x55 s0 = 0x55 ∧ pairs 0x55 s1 = 0x55 ∧ (byteoffs s0 s1).toNat = i := by
  decide +kernel

theorem column_located : ∀ bit : Fin 8,
    let s2 := column bit <<< 2
    pairs 0x54 s2 = 0x54 ∧ 1 <<< bitnum s2 = Chunk.mask bit := by
  decide

theorem syndrome_data (i : Fin 256) (bit : Fin 8) : (Cell.data i bit).syndrome =
    ⟨tmp1 (~~~UInt8.ofNat i) (UInt8.ofNat i), tmp2 (~~~UInt8.ofNat i) (UInt8.ofNat i),
      column bit <<< 2⟩ := by
  rw [Cell.syndrome, lineParities_mask]

theorem modify_modify (data : List UInt8) (i : Nat) (mask : UInt8) :
    (data.modify i (· ^^^ mask)).modify i (· ^^^ mask) = data := by
  rw [List.modify_modify_eq]
  have same : ((· ^^^ mask) ∘ (· ^^^ mask) : UInt8 → UInt8) = id := by
    funext byte
    change byte ^^^ mask ^^^ mask = byte
    rw [UInt8.xor_assoc, UInt8.xor_self, UInt8.xor_zero]
  rw [same, List.modify_id]

theorem or_eq_zero {a b c : UInt8} : a ||| b ||| c = 0 ↔ a = 0 ∧ b = 0 ∧ c = 0 := by
  simp only [← UInt8.toBitVec_inj, UInt8.toBitVec_or]
  exact BitVec.or_eq_zero_iff.trans ((and_congr_left' BitVec.or_eq_zero_iff).trans and_assoc)

theorem nandCorrectData_located (data : List UInt8) {s0 s1 s2 : UInt8}
    (single : singleBit s0 s1 s2) :
    nandCorrectData data 0 ⟨s1, s0, s2⟩ =
      ((1 : Int), data.modify (byteoffs s0 s1).toNat (· ^^^ 1 <<< bitnum s2)) := by
  have some : s0 ≠ 0 := by
    intro none
    have test := (of_decide_eq_true single).1
    rw [none] at test
    exact absurd test (by decide)
  simp only [nandCorrectData, Parities.byte0_zero, Parities.byte1_zero, Parities.byte2_zero,
    UInt8.xor_zero]
  rw [if_neg fun none => some (or_eq_zero.mp none).1, if_pos single]

theorem nandCorrectData_unit (data : List UInt8) (byte : Fin 3) (bit : Fin 8) :
    nandCorrectData data 0 (Chunk.unit byte bit) = (1, data) := by
  have alone : ∀ (byte : Fin 3) (bit : Fin 8),
      let s := Chunk.unit byte bit
      s.byte1 ||| s.byte0 ||| s.byte2 ≠ 0 ∧ ¬singleBit s.byte1 s.byte0 s.byte2 ∧
        countbits (syndromeWord s.byte1 s.byte0 s.byte2) = 1 := by
    decide
  obtain ⟨some, several, one⟩ := alone byte bit
  simp only [nandCorrectData, Parities.byte0_zero, Parities.byte1_zero, Parities.byte2_zero,
    UInt8.xor_zero]
  rw [if_neg some, if_neg several, if_pos one]

theorem Chunk.corrected_one (data : List UInt8) (sized : data.length = 256) (cell : Cell) :
    ((Chunk.written data sized).flip cell).corrected = (1, data) := by
  rw [corrected_eq, syndrome_flip, syndrome_written, Parities.zero_xor]
  cases cell with
  | data i bit =>
    obtain ⟨line0, line1, place⟩ := line_located i
    obtain ⟨column, named⟩ := column_located bit
    rw [syndrome_data, nandCorrectData_located _ (decide_eq_true ⟨line0, line1, column⟩), place,
      named, flip, modify_modify]
    rfl
  | code byte bit => exact nandCorrectData_unit data byte bit

/-! ## Two flipped bits -/

theorem countLoop_zero (turns : Nat) : countLoop turns 0 = 0 := by
  cases turns <;> rfl

theorem countLoop_succ (turns : Nat) (byte : UInt32) :
    countLoop (turns + 1) byte = (byte &&& 0x01).toNat + countLoop turns (byte >>> 1) := by
  rw [countLoop]
  split
  · next none =>
    rw [none, show (0 : UInt32) >>> 1 = 0 from rfl, countLoop_zero]
    rfl
  · rfl

theorem countLoop_xor (turns : Nat) (a b : UInt32) :
    countLoop turns (a ^^^ b) % 2 = (countLoop turns a + countLoop turns b) % 2 := by
  induction turns generalizing a b with
  | zero => rfl
  | succ turns ih =>
    have low : ((a ^^^ b) &&& 0x01).toNat % 2 = ((a &&& 0x01).toNat + (b &&& 0x01).toNat) % 2 := by
      rw [UInt32.toNat_and, UInt32.toNat_and, UInt32.toNat_and, UInt32.toNat_xor]
      change (_ &&& 1) % 2 = ((_ &&& 1) + (_ &&& 1)) % 2
      rw [Nat.and_one_is_mod, Nat.and_one_is_mod, Nat.and_one_is_mod, Nat.mod_mod,
        Nat.xor_mod_two_eq, ← Nat.add_mod]
    have rest := ih (a >>> 1) (b >>> 1)
    have shift : (a ^^^ b) >>> 1 = a >>> 1 ^^^ b >>> 1 :=
      UInt32.toBitVec_inj.mp (BitVec.ushiftRight_xor_distrib _ _ _)
    rw [countLoop_succ, countLoop_succ, countLoop_succ, shift]
    omega

/-- The bits in which a code differs from another. -/
def Parities.weight (s : Parities) : Nat := countbits (syndromeWord s.byte1 s.byte0 s.byte2)

theorem getLsbD_syndromeWord (a b c : UInt8) {i : Nat} (bound : i < 32) :
    (syndromeWord a b c).toBitVec.getLsbD i =
      if i < 8 then a.toBitVec.getLsbD i else if i < 16 then b.toBitVec.getLsbD (i - 8)
        else c.toBitVec.getLsbD (i - 16) := by
  simp only [syndromeWord, UInt32.toBitVec_or, UInt32.toBitVec_shiftLeft, UInt8.toBitVec_toUInt32,
    BitVec.getLsbD_or, show UInt32.toBitVec 8 % 32 = 8#32 from rfl,
    show UInt32.toBitVec 16 % 32 = 16#32 from rfl, BitVec.shiftLeft_eq', BitVec.toNat_ofNat,
    BitVec.getLsbD_shiftLeft, BitVec.getLsbD_setWidth, bound, decide_true, Bool.true_and]
  by_cases first : i < 8
  · simp [first, show i < 16 by omega]
  · by_cases second : i < 16
    · simp [first, second, BitVec.getLsbD_of_ge a.toBitVec i (by omega)]
      omega
    · simp [first, second, BitVec.getLsbD_of_ge a.toBitVec i (by omega),
        BitVec.getLsbD_of_ge b.toBitVec (i - 8) (by omega)]
      omega

theorem syndromeWord_xor (a b c x y z : UInt8) :
    syndromeWord (a ^^^ x) (b ^^^ y) (c ^^^ z) = syndromeWord a b c ^^^ syndromeWord x y z := by
  apply UInt32.toBitVec_inj.mp
  apply BitVec.eq_of_getLsbD_eq
  intro i bound
  rw [UInt32.toBitVec_xor, BitVec.getLsbD_xor, getLsbD_syndromeWord _ _ _ bound,
    getLsbD_syndromeWord _ _ _ bound, getLsbD_syndromeWord _ _ _ bound]
  split
  · exact BitVec.getLsbD_xor
  · split <;> exact BitVec.getLsbD_xor

theorem weight_xor (s t : Parities) : (s ^^^ t).weight % 2 = (s.weight + t.weight) % 2 := by
  rw [Parities.weight, Parities.byte0_xor, Parities.byte1_xor, Parities.byte2_xor, syndromeWord_xor]
  exact countLoop_xor 32 _ _

theorem weight_paired {s0 s1 : UInt8} (line0 : pairs 0x55 s0 = 0x55)
    (line1 : pairs 0x55 s1 = 0x55) : Parities.weight ⟨s1, s0, 0⟩ % 2 = 0 := by
  have paired : ∀ n : Fin 256, pairs 0x55 (UInt8.ofNat n) = 0x55 →
      Parities.weight ⟨UInt8.ofNat n, 0, 0⟩ % 2 = 0 ∧
        Parities.weight ⟨0, UInt8.ofNat n, 0⟩ % 2 = 0 := by
    decide +kernel
  have first := (paired ⟨s1.toNat, s1.toNat_lt⟩ (by rwa [UInt8.ofNat_toNat])).1
  have second := (paired ⟨s0.toNat, s0.toNat_lt⟩ (by rwa [UInt8.ofNat_toNat])).2
  rw [UInt8.ofNat_toNat] at first second
  have whole : (⟨s1, s0, 0⟩ : Parities) = ⟨s1, 0, 0⟩ ^^^ ⟨0, s0, 0⟩ :=
    Parities.ext UInt8.xor_zero.symm UInt8.zero_xor.symm UInt8.xor_self.symm
  rw [whole, weight_xor, Nat.add_mod, first, second]

theorem weight_syndrome (cell : Cell) : cell.syndrome.weight % 2 = 1 := by
  have columns : ∀ bit : Fin 8, Parities.weight ⟨0, 0, column bit <<< 2⟩ % 2 = 1 := by
    decide
  have units : ∀ (byte : Fin 3) (bit : Fin 8), (Chunk.unit byte bit).weight % 2 = 1 := by
    decide
  cases cell with
  | data i bit =>
    have split := weight_xor ⟨tmp1 (~~~UInt8.ofNat i) (UInt8.ofNat i),
      tmp2 (~~~UInt8.ofNat i) (UInt8.ofNat i), 0⟩ ⟨0, 0, column bit <<< 2⟩
    have whole : (Cell.data i bit).syndrome = ⟨tmp1 (~~~UInt8.ofNat i) (UInt8.ofNat i),
        tmp2 (~~~UInt8.ofNat i) (UInt8.ofNat i), 0⟩ ^^^ ⟨0, 0, column bit <<< 2⟩ := by
      rw [syndrome_data]
      ext1
      · exact UInt8.xor_zero.symm
      · exact UInt8.xor_zero.symm
      · exact UInt8.zero_xor.symm
    obtain ⟨line0, line1, -⟩ := line_located i
    rw [whole, split, Nat.add_mod, weight_paired line0 line1, columns]
  | code byte bit => exact units byte bit

theorem pairs_xor (mask s t : UInt8) : pairs mask (s ^^^ t) = pairs mask s ^^^ pairs mask t := by
  have shift : (s ^^^ t) >>> 1 = s >>> 1 ^^^ t >>> 1 :=
    UInt8.toBitVec_inj.mp (BitVec.ushiftRight_xor_distrib _ _ _)
  have exchanged : (s ^^^ t) ^^^ (s >>> 1 ^^^ t >>> 1) = (s ^^^ s >>> 1) ^^^ (t ^^^ t >>> 1) := by
    ac_rfl
  rw [pairs, shift, exchanged, and_xor]
  rfl

theorem syndrome_injective {cell other : Cell} (same : cell.syndrome = other.syndrome) :
    cell = other := by
  have units : ∀ (byte byte' : Fin 3) (bit bit' : Fin 8),
      Chunk.unit byte bit = Chunk.unit byte' bit' → byte = byte' ∧ bit = bit' := by
    decide
  have alone : ∀ (byte : Fin 3) (bit : Fin 8),
      ¬(pairs 0x55 (Chunk.unit byte bit).byte1 = 0x55 ∧
        pairs 0x55 (Chunk.unit byte bit).byte0 = 0x55) := by
    decide
  have masks : ∀ bit bit' : Fin 8, Chunk.mask bit = Chunk.mask bit' → bit = bit' := by
    decide
  cases cell with
  | data i bit =>
    obtain ⟨line0, line1, place⟩ := line_located i
    cases other with
    | data j bit' =>
      rw [syndrome_data, syndrome_data, Parities.mk.injEq] at same
      obtain ⟨first, second, third⟩ := same
      have here := (column_located bit).2
      rw [first, second, (line_located j).2.2] at place
      rw [third, (column_located bit').2] at here
      rw [Fin.ext place, masks bit' bit here]
    | code byte bit' =>
      rw [syndrome_data, Cell.syndrome] at same
      refine absurd ?_ (alone byte bit')
      rw [← same]
      exact ⟨line0, line1⟩
  | code byte bit =>
    cases other with
    | data j bit' =>
      obtain ⟨line0, line1, -⟩ := line_located j
      rw [syndrome_data, Cell.syndrome] at same
      refine absurd ?_ (alone byte bit)
      rw [same]
      exact ⟨line0, line1⟩
    | code byte' bit' =>
      obtain ⟨rfl, rfl⟩ := units byte byte' bit bit' same
      rfl

theorem nandCorrectData_several (data : List UInt8) {cell other : Cell} (apart : cell ≠ other)
    (several : ¬singleBit (cell.syndrome ^^^ other.syndrome).byte1
      (cell.syndrome ^^^ other.syndrome).byte0 (cell.syndrome ^^^ other.syndrome).byte2) :
    nandCorrectData data 0 (cell.syndrome ^^^ other.syndrome) = (ebadmsg, data) := by
  have even : (cell.syndrome ^^^ other.syndrome).weight ≠ 1 := by
    have sum := weight_xor cell.syndrome other.syndrome
    have odd := weight_syndrome cell
    have odd' := weight_syndrome other
    omega
  have some : ¬(cell.syndrome ^^^ other.syndrome).byte1 ||| (cell.syndrome ^^^ other.syndrome).byte0
      ||| (cell.syndrome ^^^ other.syndrome).byte2 = 0 := by
    intro none
    obtain ⟨second, first, third⟩ := or_eq_zero.mp none
    refine apart (syndrome_injective ?_)
    ext1
    · exact UInt8.xor_eq_zero_iff.mp first
    · exact UInt8.xor_eq_zero_iff.mp second
    · exact UInt8.xor_eq_zero_iff.mp third
  simp only [nandCorrectData, Parities.byte0_zero, Parities.byte1_zero, Parities.byte2_zero,
    UInt8.xor_zero]
  rw [if_neg some, if_neg several]
  exact if_neg even

/-- One flipped bit in the data and one in the code. -/
theorem nandCorrectData_mixed (data : List UInt8) (i : Fin 256) (bit : Fin 8) (byte : Fin 3)
    (bit' : Fin 8) :
    let s := (Cell.data i bit).syndrome ^^^ (Cell.code byte bit').syndrome
    nandCorrectData data 0 s = (ebadmsg, data) ∨
      nandCorrectData data 0 s = (1, data.modify i (· ^^^ Chunk.mask bit)) := by
  have broken : ∀ bit : Fin 8, (0x55 : UInt8) ^^^ pairs 0x55 (Chunk.mask bit) ≠ 0x55 := by
    decide
  have unused : ∀ bit' : Fin 8, (0x54 : UInt8) ^^^ pairs 0x54 (Chunk.mask bit') = 0x54 →
      ∀ bit : Fin 8, bitnum (column bit <<< 2 ^^^ Chunk.mask bit') = bitnum (column bit <<< 2) := by
    decide
  have apart : Cell.data i bit ≠ Cell.code byte bit' := by
    intro same
    cases same
  have several := nandCorrectData_several data apart
  obtain ⟨line0, line1, place⟩ := line_located i
  obtain ⟨single, named⟩ := column_located bit
  rw [syndrome_data] at several ⊢
  generalize tmp1 (~~~UInt8.ofNat i) (UInt8.ofNat i) = s1 at *
  generalize tmp2 (~~~UInt8.ofNat i) (UInt8.ofNat i) = s0 at *
  match byte with
  | 0 =>
    refine .inl (several fun test => broken bit' ?_)
    have pair := (of_decide_eq_true test).2.1
    rwa [Parities.byte0_xor, pairs_xor, line1] at pair
  | 1 =>
    refine .inl (several fun test => broken bit' ?_)
    have pair := (of_decide_eq_true test).1
    rwa [Parities.byte1_xor, pairs_xor, line0] at pair
  | 2 =>
    by_cases spare : (0x54 : UInt8) ^^^ pairs 0x54 (Chunk.mask bit') = 0x54
    · have whole : (⟨s1, s0, column bit <<< 2⟩ : Parities) ^^^ (Cell.code 2 bit').syndrome =
          ⟨s1, s0, column bit <<< 2 ^^^ Chunk.mask bit'⟩ :=
        Parities.ext UInt8.xor_zero UInt8.xor_zero rfl
      have test : singleBit s0 s1 (column bit <<< 2 ^^^ Chunk.mask bit') :=
        decide_eq_true ⟨line0, line1, by rw [pairs_xor, single, spare]⟩
      right
      rw [whole, nandCorrectData_located data test, place, unused bit' spare bit, named]
    · refine .inl (several fun test => spare ?_)
      have pair := (of_decide_eq_true test).2.2
      rwa [Parities.byte2_xor, pairs_xor, single] at pair

/-- Two flipped bits are reported, or the data are as they were written: they are never changed
into others. -/
theorem Chunk.corrected_two (data : List UInt8) (sized : data.length = 256) {cell other : Cell}
    (apart : cell ≠ other) :
    let read := ((Chunk.written data sized).flip cell).flip other
    read.corrected = (ebadmsg, read.data) ∨ read.corrected = (1, data) := by
  intro read
  have difference : read.syndrome = cell.syndrome ^^^ other.syndrome := by
    rw [syndrome_flip, syndrome_flip, syndrome_written, Parities.zero_xor]
  rw [corrected_eq, difference]
  cases cell with
  | data i bit =>
    cases other with
    | data j bit' =>
      refine .inl (nandCorrectData_several _ apart fun single => ?_)
      have test := (of_decide_eq_true single).1
      rw [syndrome_data, syndrome_data, Parities.byte1_xor, pairs_xor, (line_located i).1,
        (line_located j).1] at test
      exact absurd test (by decide)
    | code byte bit' =>
      have mixed := nandCorrectData_mixed read.data i bit byte bit'
      rwa [show read.data.modify i (· ^^^ Chunk.mask bit) = data from modify_modify _ _ _] at mixed
  | code byte bit =>
    cases other with
    | data j bit' =>
      have mixed := nandCorrectData_mixed read.data j bit' byte bit
      rwa [show read.data.modify j (· ^^^ Chunk.mask bit') = data from modify_modify _ _ _,
        Parities.xor_comm] at mixed
    | code byte' bit' =>
      have never : ∀ (byte byte' : Fin 3) (bit bit' : Fin 8),
          let s := Chunk.unit byte bit ^^^ Chunk.unit byte' bit'
          ¬singleBit s.byte1 s.byte0 s.byte2 := by
        decide
      exact .inl (nandCorrectData_several _ apart (never byte byte' bit bit'))

end HrppBoot.Flash.NandEcc
