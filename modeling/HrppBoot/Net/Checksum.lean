import HrppBoot.Lib.OnesComplement
import HrppBoot.Net.Tftp
import Mathlib.Tactic.IntervalCases

/-!
# Checksums

`net/checksum.c`, and the headers of `net/net.c` and `net/ping.c` that carry its sums. The checksum
is the complement of a one's-complement sum, as long as the `int` that collects the words does not
overflow. The test of a checksum leaves out the lowest bit, so a sum that is one too small passes.
-/

namespace HrppBoot.Net

open ByteMemory OnesComplement

/-! ## The sum -/

def intMax : Nat := 2 ^ 31 - 1

/-- The values that `sum` takes in the loop of `compute_ip_checksum`. -/
def sumsFrom (m : Memory) (sum a : Nat) : Nat → List Nat
  | 0 => [sum]
  | 1 => [sum, sum + (m a).toNat]
  | nbytes + 2 => sum :: sumsFrom m (sum + m.half a) (a + 2) nbytes

/-- The `int` does not overflow. -/
def AccumulatorFits (m : Memory) (a nbytes : Nat) : Prop :=
  ∀ sum ∈ sumsFrom m 0 a nbytes, sum ≤ intMax

theorem sumWords_eq (m : Memory) (a nbytes : Nat) :
    sumWords m.half (fun a => (m a).toNat) a nbytes = byteSum false (m.load a nbytes) := by
  induction nbytes using Nat.twoStepInduction generalizing a with
  | zero => rfl
  | one => rfl
  | more nbytes ih _ =>
    rw [sumWords, ih, Memory.load_succ, Memory.load_succ, byteSum, byteSum, Memory.half]
    simp only [Bool.false_eq_true, if_false, Bool.not_false, if_true, Bool.not_true, Nat.add_assoc,
      Nat.reduceAdd]

theorem sumsFrom_spec (m : Memory) (sum a nbytes : Nat) :
    sum + byteSum false (m.load a nbytes) ∈ sumsFrom m sum a nbytes ∧
      ∀ value ∈ sumsFrom m sum a nbytes, value ≤ sum + byteSum false (m.load a nbytes) := by
  induction nbytes using Nat.twoStepInduction generalizing sum a with
  | zero => simp [sumsFrom, Memory.load, byteSum]
  | one => simp [sumsFrom, Memory.load, byteSum]
  | more nbytes ih _ =>
    obtain ⟨member, greatest⟩ := ih (sum + m.half a) (a + 2)
    have total : sum + m.half a + byteSum false (m.load (a + 2) nbytes) =
        sum + byteSum false (m.load a (nbytes + 2)) := by
      rw [← sumWords_eq, ← sumWords_eq, sumWords]
      omega
    rw [total] at member greatest
    rw [sumsFrom]
    refine ⟨List.mem_cons_of_mem _ member, fun value among => ?_⟩
    rcases List.mem_cons.mp among with rfl | later
    · exact Nat.le_add_right _ _
    · exact greatest value later

variable {a nbytes n j : Nat} {m : Memory}

theorem accumulatorFits_iff :
    AccumulatorFits m a nbytes ↔ byteSum false (m.load a nbytes) ≤ intMax := by
  obtain ⟨member, greatest⟩ := sumsFrom_spec m 0 a nbytes
  rw [Nat.zero_add] at member greatest
  exact ⟨fun fits => fits _ member, fun fits value among => (greatest value among).trans fits⟩

theorem accumulatorFits_of_le (m : Memory) (a : Nat) (small : nbytes ≤ 65535) :
    AccumulatorFits m a nbytes := by
  rw [accumulatorFits_iff]
  have bound := byteSum_le false (m.load a nbytes)
  rw [Memory.length_load] at bound
  simp only [Bool.false_eq_true, if_false] at bound
  unfold intMax
  omega

theorem computeIpChecksum_eq (fits : AccumulatorFits m a nbytes) :
    computeIpChecksum m a nbytes = 65535 - residue (byteSum false (m.load a nbytes)) := by
  have small : byteSum false (m.load a nbytes) < 2 ^ 32 := by
    have bound := accumulatorFits_iff.mp fits
    unfold intMax at bound
    omega
  rw [computeIpChecksum, sumWords_eq]
  exact congrArg (65535 - ·) (fold_twice small)

/-! ## Sums of parts -/

/-- `~` of 32 bits. -/
def not32 (n : Nat) : Nat := 2 ^ 32 - 1 - n

def addIpChecksums (offset sum new : Nat) : Nat :=
  let sum := not32 sum &&& 0xffff
  let new := not32 new &&& 0xffff
  let new := if offset &&& 1 ≠ 0 then new >>> 8 &&& 0xff ||| new <<< 8 &&& 0xff00 else new
  let checksum := sum + new
  let checksum := if checksum > 0xffff then checksum - 0xffff else checksum
  not32 checksum &&& 0xffff

theorem not32_and (small : n ≤ 65535) : not32 n &&& 0xffff = 65535 - n := by
  have mask : (0xffff : Nat) = 2 ^ 16 - 1 := by decide
  rw [mask, Nat.and_two_pow_sub_one_eq_mod, not32]
  omega

theorem swapped (small : n ≤ 65535) :
    n >>> 8 &&& 0xff ||| n <<< 8 &&& 0xff00 = n / 256 + n % 256 * 256 := by
  have mask : (0xff : Nat) = 2 ^ 8 - 1 := by decide
  have low : n >>> 8 &&& 0xff = n / 256 := by
    rw [mask, Nat.and_two_pow_sub_one_eq_mod, Nat.shiftRight_eq_div_pow]
    omega
  have high : n <<< 8 &&& 0xff00 = (n % 256) <<< 8 := by
    have wide : (0xff00 : Nat) = 0xff <<< 8 := by decide
    rw [wide, ← Nat.shiftLeft_and_distrib, mask, Nat.and_two_pow_sub_one_eq_mod]
  rw [low, high, Nat.or_comm, ← Nat.shiftLeft_add_eq_or_of_lt (by omega), Nat.shiftLeft_eq]
  omega

theorem addIpChecksums_eq (offset m n : Nat) :
    addIpChecksums offset (65535 - residue m) (65535 - residue n) =
      65535 - residue (m + if offset % 2 = 1 then 256 * n else n) := by
  have left := residue_le m
  have right := residue_le n
  have place : (if offset &&& 1 ≠ 0 then
      residue n >>> 8 &&& 0xff ||| residue n <<< 8 &&& 0xff00 else residue n) =
      residue (if offset % 2 = 1 then 256 * n else n) := by
    rw [Nat.and_one_is_mod]
    rcases Nat.mod_two_eq_zero_or_one offset with even | odd
    · rw [even, if_neg (by decide), if_neg (by decide)]
    · rw [odd, if_pos (by decide), if_pos rfl, swapped right, swap_eq_residue right,
        residue_mul_residue]
  have whole := residue_add m (if offset % 2 = 1 then 256 * n else n)
  have small := residue_le (m + if offset % 2 = 1 then 256 * n else n)
  have first : 65535 - (65535 - residue m) = residue m := by omega
  have second : 65535 - (65535 - residue n) = residue n := by omega
  simp only [addIpChecksums, not32_and (Nat.sub_le 65535 _), first, second, place]
  rw [show (if residue m + residue (if offset % 2 = 1 then 256 * n else n) > 0xffff then _ else _) =
    residue (m + if offset % 2 = 1 then 256 * n else n) from whole.symm, not32_and small]

def checksumOf (bytes : List UInt8) : Nat :=
  computeIpChecksum (Memory.blank.store 0 bytes) 0 bytes.length

theorem checksumOf_eq {bytes : List UInt8} (small : bytes.length ≤ 65535) :
    checksumOf bytes = 65535 - residue (byteSum false bytes) := by
  have read : (Memory.blank.store 0 bytes).load 0 bytes.length = bytes :=
    (Memory.store_holds _ _ _).load
  rw [checksumOf, computeIpChecksum_eq (accumulatorFits_of_le _ _ small), read]

theorem computeIpChecksum_load (m : Memory) (a : Nat) (small : nbytes ≤ 65535) :
    computeIpChecksum m a nbytes = checksumOf (m.load a nbytes) := by
  rw [computeIpChecksum_eq (accumulatorFits_of_le m a small),
    checksumOf_eq (by rwa [Memory.length_load])]

/-- The checksum of two byte strings in a row is put together from theirs, and no `int` overflows
on the way. -/
theorem computeIpChecksum_append (a b : List UInt8) (small : a.length + b.length ≤ 65535) :
    checksumOf (a ++ b) = addIpChecksums a.length (checksumOf a) (checksumOf b) ∧
      ∀ bytes ∈ [a, b, a ++ b],
        AccumulatorFits (Memory.blank.store 0 bytes) 0 bytes.length := by
  constructor
  · rw [checksumOf_eq (by rwa [List.length_append]), checksumOf_eq (by omega),
      checksumOf_eq (by omega), addIpChecksums_eq, byteSum_append]
    rcases Nat.mod_two_eq_zero_or_one a.length with even | odd
    · simp [even]
    · simp only [odd, decide_true, Bool.false_xor, if_true]
      rw [residue_add, residue_byteSum_high, ← residue_add]
  · intro bytes member
    refine accumulatorFits_of_le _ _ ?_
    simp only [List.mem_cons, List.not_mem_nil, or_false] at member
    rcases member with rfl | rfl | rfl
    · omega
    · omega
    · rwa [List.length_append]

/-- A byte, and two bytes behind it. -/
theorem computeIpChecksum_append_odd :
    checksumOf [1, 2, 3] = addIpChecksums 1 (checksumOf [1]) (checksumOf [2, 3]) :=
  (computeIpChecksum_append [1] [2, 3] (by decide)).1

/-! ## Headers -/

def ipFlagsDfrag : Nat := 0x4000

def icmpHdrSize : Nat := 8

def icmpEchoRequest : UInt8 := 8

/-- `ip->ip_sum = compute_ip_checksum(ip, IP_HDR_SIZE)` -/
def sumIpHeader (m : Memory) : Memory := m.storeHalf 10 (computeIpChecksum m 0 ipHdrSize)

/-- `net_set_ip_header`, for a packet at address 0 and the value of `net_ip_id`. The protocol stays
what it is. -/
def netSetIpHeader (id : Nat) (dest source : UInt32) (m : Memory) : Memory :=
  ((((((m.store 0 [0x45, 0]).store 2 (be16 ipHdrSize)).store 4 (be16 id)).store 6
    (be16 ipFlagsDfrag)).store 8 [255]).store 10 [0, 0]).store 12
      (le32Bytes source ++ le32Bytes dest)

/-- `net_set_udp_header`: the packet after it. -/
def netSetUdpHeader (id : Nat) (netIp dest : UInt32) (dport sport len : Nat) (m : Memory) :
    Memory :=
  let m := if len &&& 1 ≠ 0 then m.store (ipUdpHdrSize + len) [0] else m
  let m := netSetIpHeader id dest netIp m
  let m := sumIpHeader ((m.store 2 (be16 (ipUdpHdrSize + len))).store 9 [ipprotoUdp])
  m.store 20 (be16 sport ++ be16 dport ++ be16 (udpHdrSize + len) ++ [0, 0])

/-- `set_icmp_header`, for the value of `ping_seq_number`. -/
def setIcmpHeader (id seq : Nat) (netIp dest : UInt32) (m : Memory) : Memory :=
  let m := netSetIpHeader id dest netIp m
  let m := sumIpHeader ((m.store 2 (be16 (ipHdrSize + icmpHdrSize))).store 9 [ipprotoIcmp])
  let m := m.store 20 ([icmpEchoRequest, 0, 0, 0, 0, 0] ++ be16 seq)
  m.storeHalf 22 (computeIpChecksum m 20 icmpHdrSize)

def rangeSum (m : Memory) (a nbytes : Nat) : Nat := sum (words (m.load a nbytes))

theorem and_mask_eq_zero (small : n ≤ 65535) : n &&& 0xfffe = 0 ↔ n ≤ 1 := by
  constructor
  · intro none
    have half : (n &&& 0xfffe) / 2 = n / 2 &&& (2 ^ 15 - 1) := Nat.and_div_two
    rw [none, Nat.and_two_pow_sub_one_eq_mod] at half
    omega
  · intro least
    interval_cases n <;> rfl

theorem ipChecksumOk_iff (fits : AccumulatorFits m a nbytes) :
    ipChecksumOk m a nbytes = true ↔
      rangeSum m a nbytes = 0xffff ∨ rangeSum m a nbytes = 0xfffe := by
  have small := residue_le (byteSum false (m.load a nbytes))
  rw [ipChecksumOk, computeIpChecksum_eq fits, decide_eq_true_eq,
    and_mask_eq_zero (Nat.sub_le _ _), rangeSum, sum_words_eq_residue]
  omega

theorem byteSum_byte (m : Memory) (a i n : Nat) :
    byteSum false (m.load a (i + 1 + n)) = byteSum false (m.load a i) +
      (if i % 2 = 1 then 256 * (m (a + i)).toNat else (m (a + i)).toNat) +
      byteSum (decide (i % 2 = 0)) (m.load (a + i + 1) n) := by
  have split : m.load a (i + 1 + n) = m.load a i ++ m (a + i) :: m.load (a + i + 1) n := by
    rw [Nat.add_assoc, ← Memory.load_append, Nat.add_comm 1 n, Memory.load_succ]
  rw [split, byteSum_append, Memory.length_load, byteSum]
  rcases Nat.mod_two_eq_zero_or_one i with even | odd
  · simp [even, Nat.add_assoc]
  · simp [odd, Nat.add_assoc]

theorem sumIpHeader_accepted (low : m 10 = 0) (high : m 11 = 0) :
    ipChecksumOk (sumIpHeader m) 0 ipHdrSize = true := by
  have small : ipHdrSize ≤ 65535 := by decide
  have value := computeIpChecksum_eq (accumulatorFits_of_le m 0 small)
  have bound := residue_le (byteSum false (m.load 0 ipHdrSize))
  have word : (sumIpHeader m).half 10 = computeIpChecksum m 0 ipHdrSize :=
    Memory.half_storeHalf m 10 (by omega)
  have front : (sumIpHeader m).load 0 10 = m.load 0 10 :=
    Memory.load_congr fun b inside => Memory.storeHalf_outside m 10 _ (by omega)
  have back : (sumIpHeader m).load 12 8 = m.load 12 8 :=
    Memory.load_congr fun b inside => Memory.storeHalf_outside m 10 _ (by omega)
  have parts (m : Memory) : byteSum false (m.load 0 ipHdrSize) =
      byteSum false (m.load 0 10) + m.half 10 + byteSum false (m.load 12 8) := by
    have behind : m.load 11 9 = m 11 :: m.load 12 8 := Memory.load_succ m 11 8
    rw [show ipHdrSize = 10 + 1 + 9 from rfl, byteSum_byte, Memory.half]
    simp [byteSum, behind, Nat.add_assoc]
  have empty : m.half 10 = 0 := by simp [Memory.half, low, high]
  have total : byteSum false ((sumIpHeader m).load 0 ipHdrSize) =
      byteSum false (m.load 0 ipHdrSize) + computeIpChecksum m 0 ipHdrSize := by
    rw [parts, parts m, word, front, back, empty]
    omega
  rw [ipChecksumOk_iff (accumulatorFits_of_le _ 0 small), rangeSum, sum_words_eq_residue, total,
    value, residue_complement]
  exact .inl rfl

theorem ipChecksumOk_congr {left right : Memory} {a nbytes : Nat} (small : nbytes ≤ 65535)
    (same : Memory.Agree (fun b => a ≤ b ∧ b < a + nbytes) left right) :
    ipChecksumOk left a nbytes = ipChecksumOk right a nbytes := by
  rw [ipChecksumOk, ipChecksumOk, computeIpChecksum_load left a small,
    computeIpChecksum_load right a small, Memory.load_congr same]

theorem netSetUdpHeader_accepted (id : Nat) (netIp dest : UInt32) (dport sport len : Nat)
    (m : Memory) :
    ipChecksumOk (netSetUdpHeader id netIp dest dport sport len m) 0 ipHdrSize = true := by
  rw [netSetUdpHeader]
  generalize (if len &&& 1 ≠ 0 then m.store (ipUdpHdrSize + len) [0] else m) = m
  rw [@ipChecksumOk_congr _ (sumIpHeader (((netSetIpHeader id dest netIp m).store 2
    (be16 (ipUdpHdrSize + len))).store 9 [ipprotoUdp])) 0 ipHdrSize (by decide)]
  · exact sumIpHeader_accepted rfl rfl
  · intro b inside
    have below : b < 20 := inside.2
    exact Memory.store_outside _ _ _ _ (.inl below)

theorem setIcmpHeader_accepted (id seq : Nat) (netIp dest : UInt32) (m : Memory) :
    ipChecksumOk (setIcmpHeader id seq netIp dest m) 0 ipHdrSize = true := by
  rw [setIcmpHeader, @ipChecksumOk_congr _ (sumIpHeader (((netSetIpHeader id dest netIp m).store 2
    (be16 (ipHdrSize + icmpHdrSize))).store 9 [ipprotoIcmp])) 0 ipHdrSize (by decide)]
  · exact sumIpHeader_accepted rfl rfl
  · intro b inside
    have below : b < 20 := inside.2
    exact (Memory.storeHalf_outside _ _ _ (.inl (by omega))).trans
      (Memory.store_outside _ _ _ _ (.inl below))

/-! ## Errors -/

/-- A memory with one bit of a byte changed. -/
def flipBit (m : Memory) (a j : Nat) : Memory := m.store a [m a ^^^ UInt8.ofNat (2 ^ j)]

theorem flip_byte (byte : UInt8) (bit : j < 8) :
    (byte ^^^ UInt8.ofNat (2 ^ j)).toNat + (if byte.toNat.testBit j then 2 ^ j else 0) =
      byte.toNat + if byte.toNat.testBit j then 0 else 2 ^ j := by
  have all : ∀ (b : Fin 256) (j : Fin 8), (b.val ^^^ 2 ^ j.val) +
      (if b.val.testBit j then 2 ^ j.val else 0) =
        b.val + if b.val.testBit j then 0 else 2 ^ j.val := by decide +kernel
  have value : (UInt8.ofNat (2 ^ j)).toNat = 2 ^ j := by
    rw [UInt8.toNat_ofNat']
    exact Nat.mod_eq_of_lt (Nat.pow_lt_pow_right (by decide) bit)
  rw [UInt8.toNat_xor, value]
  exact all ⟨byte.toNat, byte.toNat_lt⟩ ⟨j, bit⟩

theorem byteSum_flipBit (m : Memory) (a : Nat) {i : Nat} (inside : i < nbytes) (bit : j < 8) :
    let weight := if i % 2 = 1 then 256 * 2 ^ j else 2 ^ j
    byteSum false ((flipBit m (a + i) j).load a nbytes) +
        (if (m (a + i)).toNat.testBit j then weight else 0) =
      byteSum false (m.load a nbytes) +
        if (m (a + i)).toNat.testBit j then 0 else weight := by
  intro weight
  obtain ⟨n, rfl⟩ := Nat.exists_eq_add_of_lt inside
  have here : flipBit m (a + i) j (a + i) = m (a + i) ^^^ UInt8.ofNat (2 ^ j) := by
    simp [flipBit, Memory.store]
  have front : (flipBit m (a + i) j).load a i = m.load a i :=
    Memory.load_congr fun b before => Memory.store_outside _ _ _ _ (.inl before.2)
  have back : (flipBit m (a + i) j).load (a + i + 1) n = m.load (a + i + 1) n :=
    Memory.load_congr fun b behind => Memory.store_outside _ _ _ _ (.inr behind.1)
  have byte := flip_byte (m (a + i)) bit
  rw [Nat.add_right_comm i n 1, byteSum_byte, byteSum_byte, here, front, back]
  split at byte <;> split <;> simp_all [weight] <;> omega

/-- The bit that the test leaves out: the lowest one of a word, when it is set. -/
def LeftOut (m : Memory) (a i j : Nat) : Prop :=
  i % 2 = 0 ∧ j = 0 ∧ (m (a + i)).toNat.testBit j = true

theorem flipBit_accepted {i : Nat} (small : nbytes ≤ 65535) (right : rangeSum m a nbytes = 0xffff)
    (inside : i < nbytes) (bit : j < 8) :
    ipChecksumOk (flipBit m (a + i) j) a nbytes = true ↔ LeftOut m a i j := by
  have change := byteSum_flipBit m a inside bit
  have power : 2 ^ j = 1 ∧ j = 0 ∨ 2 ≤ 2 ^ j ∧ 2 ^ j ≤ 128 ∧ j ≠ 0 := by
    interval_cases j <;> decide
  rw [ipChecksumOk_iff (accumulatorFits_of_le _ a small), rangeSum, sum_words_eq_residue, LeftOut]
  rw [rangeSum, sum_words_eq_residue] at right
  generalize byteSum false ((flipBit m (a + i) j).load a nbytes) = after at change ⊢
  generalize byteSum false (m.load a nbytes) = before at change right
  cases set : (m (a + i)).toNat.testBit j with
  | false =>
    simp only [set, Bool.false_eq_true, if_false, Nat.add_zero, and_false, iff_false] at change ⊢
    rw [change, residue_add_of_full right]
    all_goals split <;> omega
  | true =>
    simp only [set, if_true, Nat.add_zero, and_true] at change ⊢
    rw [← change] at right
    rw [residue_of_full_add right]
    all_goals split <;> omega

/-- The headers that are sent are accepted. Of a right header every changed bit is noticed, save the
lowest one of a word that is cleared. A range is accepted for its sum alone, save for the sum
`0xfffe`. -/
theorem ipChecksumOk_detects (id seq dport sport len a i j nbytes : Nat) (netIp dest : UInt32)
    (m : Memory) :
    (ipChecksumOk (netSetUdpHeader id netIp dest dport sport len m) 0 ipHdrSize = true ∧
      ipChecksumOk (setIcmpHeader id seq netIp dest m) 0 ipHdrSize = true) ∧
    (rangeSum m a ipHdrSize = 0xffff → i < ipHdrSize → j < 8 →
      (ipChecksumOk (flipBit m (a + i) j) a ipHdrSize = false ↔ ¬LeftOut m a i j)) ∧
    ((AccumulatorFits m a nbytes ∧
        (ipChecksumOk m a nbytes = true ↔ rangeSum m a nbytes = 0xffff)) ↔
      byteSum false (m.load a nbytes) ≤ intMax ∧ rangeSum m a nbytes ≠ 0xfffe) := by
  refine ⟨⟨netSetUdpHeader_accepted id netIp dest dport sport len m,
    setIcmpHeader_accepted id seq netIp dest m⟩, ?_, ?_⟩
  · intro right inside bit
    rw [← Bool.not_eq_true, flipBit_accepted (by decide) right inside bit]
  · rw [← accumulatorFits_iff]
    refine and_congr_right fun fits => ?_
    rw [ipChecksumOk_iff fits]
    omega

/-- The header of a packet of three bytes. -/
def sampleHeader : Memory := netSetUdpHeader 1 0x0100000a 0x0200000a 69 1024 3 Memory.blank

/-- The lowest bit of the first byte is cleared: the version and the length are no longer `0x45`,
and the header is accepted. -/
theorem flipBit_unnoticed :
    rangeSum sampleHeader 0 ipHdrSize = 0xffff ∧ flipBit sampleHeader 0 0 0 = 0x44 ∧
      ipChecksumOk (flipBit sampleHeader 0 0) 0 ipHdrSize = true := by
  decide +kernel

end HrppBoot.Net
