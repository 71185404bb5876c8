import HrppBoot.Lib.Memory
import HrppBoot.Rsa.Power

/-!
# Verifying a signature with a key

`rsa_verify_key` of `lib/rsa/rsa-verify.c` and `rsa_mod_exp_sw` of `lib/rsa/rsa-mod-exp.c`, with the
algorithms of `common/image-sig.c`. The software implementation is the one that is called. A buffer
is followed by whatever is there; beside the return value it is kept whether every access was
inside.
-/

namespace HrppBoot.Rsa

open ByteMemory Words

/-- `struct key_prop`; a property is followed by whatever is there. -/
structure KeyProp where
  rr : Option Memory
  modulus : Option Memory
  publicExponent : Option Memory
  n0inv : UInt32
  numBits : Int

structure ChecksumAlgo where
  name : String
  checksumLen : Nat
  padLen : Nat
  rsaPadding : List UInt8

def paddingSha1Rsa2048 : List UInt8 :=
  [0x00, 0x01] ++ List.replicate 218 0xff ++
    [0x00, 0x30, 0x21, 0x30, 0x09, 0x06, 0x05, 0x2b, 0x0e, 0x03, 0x02, 0x1a, 0x05, 0x00, 0x04, 0x14]

/-- The end of the paddings for SHA-256. -/
def paddingSha256 : List UInt8 :=
  [0x00, 0x30, 0x31, 0x30, 0x0d, 0x06, 0x09, 0x60, 0x86, 0x48, 0x01, 0x65, 0x03, 0x04, 0x02, 0x01, 0x05,
    0x00, 0x04, 0x20]

def paddingSha256Rsa2048 : List UInt8 := [0x00, 0x01] ++ List.replicate 202 0xff ++ paddingSha256

def paddingSha256Rsa4096 : List UInt8 := [0x00, 0x01] ++ List.replicate 458 0xff ++ paddingSha256

def checksumAlgos : List ChecksumAlgo :=
  [⟨"sha1", 20, 256, paddingSha1Rsa2048⟩, ⟨"sha256", 32, 256, paddingSha256Rsa2048⟩,
    ⟨"sha256", 32, 512, paddingSha256Rsa4096⟩]

/-- What is returned, and whether every access was inside the buffers. -/
structure Confined (α : Type) where
  ret : Except Errno α
  inside : Bool

def rsaMaxSigBits : Nat := 4096

def rsaDefaultPubexp : UInt64 := 65537

def rsaConvertBigEndian (src : Memory) (len : Nat) : List UInt32 :=
  (ofBytes (src.load 0 (4 * len))).reverse

/-- The key that `rsa_mod_exp_sw` builds. -/
def KeyProp.key (prop : KeyProp) (modulus rr : Memory) (len : Nat) : RsaPublicKey where
  len := len
  n0inv := prop.n0inv
  modulus := rsaConvertBigEndian modulus len
  rr := rsaConvertBigEndian rr len
  exponent := prop.publicExponent.elim rsaDefaultPubexp
    fun exponent => UInt64.ofNat (bigEndian (exponent.load 0 8))

/-- `rsa_mod_exp_sw`; `behind` is what follows its buffer. -/
def rsaModExpSw (behind : Memory) (sig : List UInt8) (prop : KeyProp) : Confined (List UInt8) :=
  match prop.modulus, prop.rr with
  | some modulus, some rr =>
    let bits := (prop.numBits % 2 ^ 32).toNat
    if bits = 0 then ⟨.error .efault, true⟩
    else if bits > rsaMaxKeyBits ∨ bits < rsaMinKeyBits then ⟨.error .efault, true⟩
    else
      let key := prop.key modulus rr (bits / 32)
      let room := 4 * (sig.length / 4)
      let inside : Bool := sig.length ≤ room ∧ 4 * key.len ≤ room
      let buf := behind.store 0 sig
      match key.powMod (buf.load 0 (4 * key.len)) with
      | .error e => ⟨.error e, inside⟩
      | .ok power => ⟨.ok ((buf.store 0 power.result).load 0 sig.length), inside⟩
  | _, _ => ⟨.error .efault, true⟩

/-- `memcmp`: whether the bytes are the same, and how many were read. -/
def memcmp (cs ct : Memory) : (i count : Nat) → Bool × Nat
  | i, 0 => (true, i)
  | i, count + 1 => if cs i ≠ ct i then (false, i + 1) else memcmp cs ct (i + 1) count

/-- What follows the buffers. -/
structure Behind where
  /-- Behind the buffer of `rsa_mod_exp_sw`. -/
  modExp : Memory
  /-- Behind `buf`. -/
  buf : Memory
  /-- Behind `hash`. -/
  hash : Memory

/-- The check of the hash, of which `count` bytes are compared. -/
def checkHash (buf hash : Memory) (padLen sigLen hashLen count : Nat) : Confined Unit :=
  match memcmp (fun i => buf (padLen + i)) hash 0 count with
  | (false, read) => ⟨.error .eacces, padLen + read ≤ sigLen ∧ read ≤ hashLen⟩
  | (true, read) => ⟨.ok (), padLen + read ≤ sigLen ∧ read ≤ hashLen⟩

/-- What `rsa_verify_key` does with the power of the signature, which is as long as the
signature. -/
def checkPower (behind : Behind) (out hash : List UInt8) (algo : ChecksumAlgo) : Confined Unit :=
  match memcmp (behind.buf.store 0 out) (Memory.blank.store 0 algo.rsaPadding) 0
      (algo.padLen - algo.checksumLen) with
  | (false, read) => ⟨.error .einval, read ≤ out.length⟩
  | (true, read) =>
    let checked := checkHash (behind.buf.store 0 out) (behind.hash.store 0 hash)
      (algo.padLen - algo.checksumLen) out.length hash.length
      ((out.length + 2 ^ 32 - (algo.padLen - algo.checksumLen)) % 2 ^ 32)
    ⟨checked.ret, (read ≤ out.length : Bool) && checked.inside⟩

/-- `rsa_verify_key`; a null pointer is `none`. -/
def rsaVerifyKey (behind : Behind) (prop : Option KeyProp) (sig hash : Option (List UInt8))
    (algo : Option ChecksumAlgo) : Confined Unit :=
  match prop, sig, hash, algo with
  | some prop, some sig, some hash, some algo =>
    if sig.length ≠ (prop.numBits.tdiv 8 % 2 ^ 32).toNat then ⟨.error .einval, true⟩
    else if sig.length > rsaMaxSigBits / 8 then ⟨.error .einval, true⟩
    else
      let power := rsaModExpSw behind.modExp sig prop
      match power.ret with
      | .error e => ⟨.error e, power.inside⟩
      | .ok out =>
        let checked := checkPower behind out hash algo
        ⟨checked.ret, power.inside && checked.inside⟩
  | _, _, _, _ => ⟨.error .eio, true⟩

/-! ## Comparing -/

/-- Bytes that are compared until they differ. -/
theorem memcmp_cases (cs ct : Memory) (i count : Nat) :
    (memcmp cs ct i count = (true, i + count) ∧ ∀ j, i ≤ j → j < i + count → cs j = ct j) ∨
      ∃ k, i ≤ k ∧ k < i + count ∧ memcmp cs ct i count = (false, k + 1) ∧ cs k ≠ ct k ∧
        ∀ j, i ≤ j → j < k → cs j = ct j := by
  induction count generalizing i with
  | zero =>
    left
    refine ⟨rfl, ?_⟩
    intro j low high
    omega
  | succ count ih =>
    rw [memcmp]
    by_cases differs : cs i ≠ ct i
    · right
      refine ⟨i, le_refl _, by omega, if_pos differs, differs, ?_⟩
      intro j low high
      omega
    · rw [if_neg differs]
      have first : cs i = ct i := not_not.mp differs
      rcases ih (i + 1) with ⟨same, agree⟩ | ⟨k, low, high, found, differ, agree⟩
      · left
        rw [same]
        refine ⟨by rw [Nat.add_right_comm, Nat.add_assoc], ?_⟩
        intro j low high
        rcases Nat.eq_or_lt_of_le low with isFirst | later
        · rw [← isFirst]
          exact first
        · exact agree j later (by omega)
      · right
        refine ⟨k, by omega, by omega, found, differ, ?_⟩
        intro j low high
        rcases Nat.eq_or_lt_of_le low with isFirst | later
        · rw [← isFirst]
          exact first
        · exact agree j later high

/-- Two texts differ where both have a byte. -/
def Differ (left right : List UInt8) : Prop :=
  ∃ i, i < left.length ∧ i < right.length ∧ left.getD i 0 ≠ right.getD i 0

/-- An algorithm as it should be. -/
structure ChecksumAlgo.WellFormed (algo : ChecksumAlgo) : Prop where
  checksum : algo.checksumLen ≤ algo.padLen
  padding : algo.rsaPadding.length = algo.padLen - algo.checksumLen
  short : algo.padLen ≤ rsaMaxSigBits / 8

theorem checksumAlgos_wellFormed {algo : ChecksumAlgo} (known : algo ∈ checksumAlgos) :
    algo.WellFormed := by
  simp only [checksumAlgos, List.mem_cons, List.not_mem_nil, or_false] at known
  rcases known with rfl | rfl | rfl
  · exact ⟨by decide, by decide +kernel, by decide⟩
  · exact ⟨by decide, by decide +kernel, by decide⟩
  · exact ⟨by decide, by decide +kernel, by decide⟩

theorem store_getD (m : Memory) {bytes : List UInt8} {i : Nat} (inside : i < bytes.length) :
    m.store 0 bytes i = bytes.getD i 0 := by
  unfold Memory.store
  rw [if_pos (by omega), Nat.sub_zero]

theorem checkHash_cases (buf hash : Memory) (padLen sigLen hashLen count : Nat) :
    (checkHash buf hash padLen sigLen hashLen count =
        ⟨.ok (), padLen + count ≤ sigLen ∧ count ≤ hashLen⟩ ∧
        ∀ j, j < count → buf (padLen + j) = hash j) ∨
      ∃ k, k < count ∧ checkHash buf hash padLen sigLen hashLen count =
          ⟨.error .eacces, padLen + (k + 1) ≤ sigLen ∧ k + 1 ≤ hashLen⟩ ∧
        buf (padLen + k) ≠ hash k ∧ ∀ j, j < k → buf (padLen + j) = hash j := by
  unfold checkHash
  rcases memcmp_cases (fun i => buf (padLen + i)) hash 0 count with
    ⟨same, agree⟩ | ⟨k, -, high, found, differ, agree⟩
  · left
    rw [same, Nat.zero_add]
    exact ⟨rfl, fun j high => agree j (Nat.zero_le j) (by omega)⟩
  · right
    rw [found]
    exact ⟨k, by omega, rfl, differ, fun j high => agree j (Nat.zero_le j) high⟩

theorem checkPower_of_false {behind : Behind} {out hash : List UInt8} {algo : ChecksumAlgo}
    {read : Nat}
    (found : memcmp (behind.buf.store 0 out) (Memory.blank.store 0 algo.rsaPadding) 0
      (algo.padLen - algo.checksumLen) = (false, read)) :
    checkPower behind out hash algo = ⟨.error .einval, read ≤ out.length⟩ := by
  unfold checkPower
  rw [found]

theorem checkPower_of_true {behind : Behind} {out hash : List UInt8} {algo : ChecksumAlgo}
    {read : Nat}
    (same : memcmp (behind.buf.store 0 out) (Memory.blank.store 0 algo.rsaPadding) 0
      (algo.padLen - algo.checksumLen) = (true, read)) :
    checkPower behind out hash algo =
      ⟨(checkHash (behind.buf.store 0 out) (behind.hash.store 0 hash)
          (algo.padLen - algo.checksumLen) out.length hash.length
          ((out.length + 2 ^ 32 - (algo.padLen - algo.checksumLen)) % 2 ^ 32)).ret,
        (read ≤ out.length : Bool) && (checkHash (behind.buf.store 0 out) (behind.hash.store 0 hash)
          (algo.padLen - algo.checksumLen) out.length hash.length
          ((out.length + 2 ^ 32 - (algo.padLen - algo.checksumLen)) % 2 ^ 32)).inside⟩ := by
  unfold checkPower
  rw [same]

/-- What the check of the power comes to: a byte that is inside differs from what is expected, or
none does, and then the check succeeds if it stays inside, as it does for the right length. -/
theorem checkPower_cases (behind : Behind) {out hash : List UInt8} {algo : ChecksumAlgo}
    (wf : algo.WellFormed) (room : hash.length = algo.padLen) (short : out.length < 2 ^ 32) :
    (Differ out (algo.rsaPadding ++ hash) ∧ (checkPower behind out hash algo).ret ≠ .ok () ∧
        (checkPower behind out hash algo).inside = true) ∨
      ¬Differ out (algo.rsaPadding ++ hash) ∧
        ((checkPower behind out hash algo).inside = true →
          (checkPower behind out hash algo).ret = .ok ()) ∧
        (out.length = algo.padLen → (checkPower behind out hash algo).inside = true) := by
  obtain ⟨checksum, padding, -⟩ := wf
  obtain ⟨p, pIs⟩ : ∃ p, algo.padLen - algo.checksumLen = p := ⟨_, rfl⟩
  rw [pIs] at padding
  have total : (algo.rsaPadding ++ hash).length = p + hash.length := by
    rw [List.length_append, padding]
  have front {i : Nat} (low : i < p) :
      Memory.blank.store 0 algo.rsaPadding i = (algo.rsaPadding ++ hash).getD i 0 := by
    rw [List.getD_append _ _ _ _ (by omega), store_getD _ (by omega)]
  have back {i : Nat} (low : i < hash.length) :
      behind.hash.store 0 hash i = (algo.rsaPadding ++ hash).getD (p + i) 0 := by
    rw [List.getD_append_right _ _ _ _ (by omega), padding, Nat.add_sub_cancel_left,
      store_getD _ low]
  have power {i : Nat} (low : i < out.length) : behind.buf.store 0 out i = out.getD i 0 :=
    store_getD _ low
  rcases memcmp_cases (behind.buf.store 0 out) (Memory.blank.store 0 algo.rsaPadding) 0
    (algo.padLen - algo.checksumLen) with ⟨same, agree⟩ | ⟨k, -, high, found, differ, agree⟩
  · rw [checkPower_of_true same, pIs]
    rw [pIs] at agree
    have padded {i : Nat} (low : i < p) (inside : i < out.length) :
        out.getD i 0 = (algo.rsaPadding ++ hash).getD i 0 := by
      rw [← power inside, ← front low]
      exact agree i (Nat.zero_le i) (by omega)
    obtain ⟨count, countIs⟩ : ∃ n, (out.length + 2 ^ 32 - p) % 2 ^ 32 = n := ⟨_, rfl⟩
    rw [countIs]
    by_cases enough : p ≤ out.length
    · have countEq : count = out.length - p := by omega
      -- As far as the hash agrees, the power and what is expected do.
      have hashed {n i : Nat} (agreed : ∀ j, j < n → behind.buf.store 0 out (p + j) =
          behind.hash.store 0 hash j) (inside : i < out.length) (known : i < p + hash.length)
          (low : i < p + n) : out.getD i 0 = (algo.rsaPadding ++ hash).getD i 0 := by
        by_cases early : i < p
        · exact padded early inside
        · obtain ⟨j, rfl⟩ : ∃ j, i = p + j := ⟨i - p, by omega⟩
          rw [← power inside, ← back (by omega)]
          exact agreed j (by omega)
      rcases checkHash_cases (behind.buf.store 0 out) (behind.hash.store 0 hash) p out.length
        hash.length count with ⟨checked, hashAgree⟩ | ⟨k, low, checked, hashDiffer, hashAgree⟩
      · right
        rw [checked]
        refine ⟨?_, fun _ => rfl, ?_⟩
        · rintro ⟨i, inside, known, differs⟩
          exact differs (hashed hashAgree inside (by omega) (by omega))
        · intro length
          simp only [Bool.and_eq_true, decide_eq_true_eq]
          omega
      · by_cases known : k < hash.length
        · left
          rw [checked]
          refine ⟨⟨p + k, by omega, by omega, ?_⟩, by simp, ?_⟩
          · rw [← power (by omega), ← back known]
            exact hashDiffer
          · simp only [Bool.and_eq_true, decide_eq_true_eq]
            omega
        · right
          rw [checked]
          refine ⟨?_, ?_, ?_⟩
          · rintro ⟨i, inside, isKnown, differs⟩
            exact differs (hashed hashAgree inside (by omega) (by omega))
          · intro inside
            simp only [Bool.and_eq_true, decide_eq_true_eq] at inside
            omega
          · intro length
            omega
    · right
      refine ⟨?_, ?_, ?_⟩
      · rintro ⟨i, inside, -, differs⟩
        exact differs (padded (by omega) inside)
      · intro inside
        simp only [Bool.and_eq_true, decide_eq_true_eq] at inside
        omega
      · intro length
        omega
  · rw [checkPower_of_false found]
    by_cases inside : k < out.length
    · left
      refine ⟨⟨k, inside, by omega, ?_⟩, by simp, decide_eq_true inside⟩
      rw [← power inside, ← front (by omega)]
      exact differ
    · right
      refine ⟨?_, ?_, ?_⟩
      · rintro ⟨i, low, -, differs⟩
        rw [← power low, ← front (by omega)] at differs
        exact differs (agree i (Nat.zero_le i) (by omega))
      · intro isInside
        simp only [decide_eq_true_eq] at isInside
        omega
      · intro length
        omega

/-! ## The modular power -/

theorem value_rsaConvertBigEndian {m : Memory} {bytes : List UInt8} {len : Nat}
    (holds : m.Holds 0 bytes)
    (length : bytes.length = 4 * len) :
    (rsaConvertBigEndian m len).length = len ∧
    value (rsaConvertBigEndian m len) = bigEndian bytes := by
  have loaded : m.load 0 (4 * len) = bytes := by
    rw [← length]
    exact holds.load
  unfold rsaConvertBigEndian
  rw [loaded, List.length_reverse]
  exact ofBytes_spec len bytes length

/-- A key that `rsa_mod_exp_sw` accepts. -/
structure KeyProp.Accepted (prop : KeyProp) : Prop where
  bits : rsaMinKeyBits ≤ prop.numBits ∧ prop.numBits ≤ rsaMaxKeyBits
  numbers : prop.modulus.isSome ∧ prop.rr.isSome

theorem rsaModExpSw_refused (behind : Memory) (sig : List UInt8) {prop : KeyProp}
    (int : -2 ^ 31 ≤ prop.numBits ∧ prop.numBits < 2 ^ 31) (refused : ¬prop.Accepted) :
    rsaModExpSw behind sig prop = ⟨.error .efault, true⟩ := by
  unfold rsaModExpSw
  split
  · rename_i modulus rr isModulus isRr
    have range : ¬(rsaMinKeyBits ≤ prop.numBits ∧ prop.numBits ≤ rsaMaxKeyBits) := fun bits =>
      refused ⟨bits, by simp [isModulus, isRr]⟩
    have outside : (prop.numBits % 2 ^ 32).toNat > rsaMaxKeyBits ∨
        (prop.numBits % 2 ^ 32).toNat < rsaMinKeyBits := by
      simp only [rsaMinKeyBits, rsaMaxKeyBits] at range ⊢
      omega
    dsimp only
    split
    · rfl
    · rfl
  · rfl

theorem rsaModExpSw_accepted (behind : Memory) {sig : List UInt8} {prop : KeyProp}
    (accepted : prop.Accepted) (length : sig.length = prop.numBits.tdiv 8) :
    ((rsaModExpSw behind sig prop).inside = true ↔ sig.length % 4 = 0) ∧
      ∀ out, (rsaModExpSw behind sig prop).ret = .ok out → out.length = sig.length := by
  obtain ⟨⟨low, high⟩, someModulus, someRr⟩ := accepted
  obtain ⟨modulus, isModulus⟩ := Option.isSome_iff_exists.mp someModulus
  obtain ⟨rr, isRr⟩ := Option.isSome_iff_exists.mp someRr
  simp only [rsaMinKeyBits, rsaMaxKeyBits] at low high
  have words : sig.length / 4 = (prop.numBits % 2 ^ 32).toNat / 32 := by
    rw [Int.tdiv_eq_ediv_of_nonneg (by omega)] at length
    omega
  unfold rsaModExpSw
  rw [isModulus, isRr]
  dsimp only
  rw [if_neg (by omega), if_neg (by simp only [rsaMinKeyBits, rsaMaxKeyBits]; omega)]
  have inside : (decide (sig.length ≤ 4 * (sig.length / 4) ∧
      4 * (prop.key modulus rr ((prop.numBits % 2 ^ 32).toNat / 32)).len ≤ 4 * (sig.length / 4)) = true ↔
        sig.length % 4 = 0) := by
    have isLen : (prop.key modulus rr ((prop.numBits % 2 ^ 32).toNat / 32)).len =
      (prop.numBits % 2 ^ 32).toNat / 32 := rfl
    rw [decide_eq_true_eq, isLen, ← words]
    omega
  split
  · refine ⟨inside, ?_⟩
    intro out isOk
    cases isOk
  · refine ⟨inside, ?_⟩
    intro out isOk
    injection isOk with isOut
    rw [← isOut, Memory.length_load]

theorem rsaModExpSw_powers (behind : Memory) {sig : List UInt8} {prop : KeyProp}
    {modulus rr : Memory}
    {len : Nat} (isModulus : prop.modulus = some modulus) (isRr : prop.rr = some rr)
    (bits : prop.numBits = (32 * len : Nat))
    (range : rsaMinKeyBits ≤ 32 * len ∧ 32 * len ≤ rsaMaxKeyBits)
    (length : sig.length = 4 * len) (wf : (prop.key modulus rr len).WellFormed)
    (three : 3 ≤ (prop.key modulus rr len).exponent.toNat)
    (odd : (prop.key modulus rr len).exponent.toNat % 2 = 1) :
    ∃ out, (rsaModExpSw behind sig prop).ret = .ok out ∧ out.length = sig.length ∧
      bigEndian out = bigEndian sig ^
        RsaPublicKey.seenExponent (prop.key modulus rr len).exponent.toNat %
          (prop.key modulus rr len).n := by
  simp only [rsaMinKeyBits, rsaMaxKeyBits] at range
  have isLen : (prop.numBits % 2 ^ 32).toNat / 32 = len := by omega
  have stored : (behind.store 0 sig).load 0 (4 * len) = sig := by
    rw [← length]
    exact (Memory.store_holds _ _ _).load
  obtain ⟨out, powers, outLength, isPower⟩ := @RsaPublicKey.WellFormed.powMod_spec _ wf sig length
    (show len ≤ rsaMaxKeyBits / 32 by rw [rsaMaxKeyBits]; omega) three odd
  have loaded : ((behind.store 0 sig).store 0 out).load 0 sig.length = out := by
    rw [← outLength]
    exact (Memory.store_holds _ _ _).load
  refine ⟨out, ?_, outLength, isPower⟩
  unfold rsaModExpSw
  rw [isModulus, isRr]
  dsimp only
  rw [isLen, if_neg (by omega), if_neg (by simp only [rsaMinKeyBits, rsaMaxKeyBits]; omega)]
  have sameLen : (prop.key modulus rr len).len = len := rfl
  rw [sameLen, stored, powers]
  show Except.ok (((behind.store 0 sig).store 0 out).load 0 sig.length) = Except.ok out
  rw [loaded]

/-! ## Exactness -/

section Exact

variable (behind : Behind) (prop : KeyProp) (sig hash : List UInt8) (algo : ChecksumAlgo)

/-- The signature is as long as the key and what is padded, and its power is the padded digest. -/
def Verified : Prop :=
  sig.length = prop.numBits.tdiv 8 ∧ sig.length = algo.padLen ∧
    (rsaModExpSw behind.modExp sig prop).ret = .ok (algo.rsaPadding ++ hash.take algo.checksumLen)

/-- `rsa_verify_key` returns zero exactly for those signatures, and stays inside its buffers. -/
def Exact : Prop :=
  ((rsaVerifyKey behind (some prop) (some sig) (some hash) (some algo)).ret = .ok () ↔
      Verified behind prop sig hash algo) ∧
    (rsaVerifyKey behind (some prop) (some sig) (some hash) (some algo)).inside = true

/-- A signature that is as long as a key that is accepted fills whole words, and it is as long as
what is padded or its power differs from what is expected. -/
def Fitting : Prop :=
  prop.Accepted → sig.length = prop.numBits.tdiv 8 →
    sig.length % 4 = 0 ∧
      (sig.length = algo.padLen ∨ ∀ out, (rsaModExpSw behind.modExp sig prop).ret = .ok out →
        Differ out (algo.rsaPadding ++ hash))

end Exact

section Verify

variable {behind : Behind} {prop : KeyProp} {sig hash : List UInt8} {algo : ChecksumAlgo}

/-- The power of a signature of the right length is what is expected when it does not differ. -/
theorem eq_of_not_differ {out : List UInt8} (wf : algo.WellFormed)
    (room : hash.length = algo.padLen)
    (length : out.length = algo.padLen) :
    ¬Differ out (algo.rsaPadding ++ hash) ↔
      out = algo.rsaPadding ++ hash.take algo.checksumLen := by
  obtain ⟨checksum, padding, -⟩ := wf
  have cut : algo.rsaPadding ++ hash.take algo.checksumLen =
      (algo.rsaPadding ++ hash).take algo.padLen := by
    have whole : algo.rsaPadding.take algo.padLen = algo.rsaPadding :=
      List.take_of_length_le (by omega)
    have rest : algo.padLen - (algo.padLen - algo.checksumLen) = algo.checksumLen := by omega
    rw [List.take_append, whole, padding, rest]
  rw [cut]
  constructor
  · intro same
    apply List.ext_getElem
    · rw [List.length_take, List.length_append]
      omega
    · intro i low _
      by_contra differs
      have known : i < (algo.rsaPadding ++ hash).length := by
        rw [List.length_append]
        omega
      apply same
      refine ⟨i, low, known, ?_⟩
      rw [List.getD_eq_getElem _ _ low, List.getD_eq_getElem _ _ known]
      rwa [List.getElem_take] at differs
  · rintro isOut ⟨i, low, known, differs⟩
    apply differs
    rw [List.getD_eq_getElem _ _ low, List.getD_eq_getElem _ _ known]
    simp only [isOut, List.getElem_take]

theorem rsaVerifyKey_of_length (other : sig.length ≠ (prop.numBits.tdiv 8 % 2 ^ 32).toNat) :
    rsaVerifyKey behind (some prop) (some sig) (some hash) (some algo) = ⟨.error .einval, true⟩ := by
  simp only [rsaVerifyKey]
  rw [if_pos other]

/-- A signature that is not as long as the key, or a key that is not accepted. -/
theorem exact_of_refused (wf : algo.WellFormed)
    (int : -2 ^ 31 ≤ prop.numBits ∧ prop.numBits < 2 ^ 31)
    (refused : ¬(prop.Accepted ∧ sig.length = prop.numBits.tdiv 8)) :
    Exact behind prop sig hash algo := by
  have failed {result : Confined Unit}
      (returns : rsaVerifyKey behind (some prop) (some sig) (some hash) (some algo) = result)
      (inside : result.inside = true) (error : result.ret ≠ .ok ())
      (unverified : ¬Verified behind prop sig hash algo) : Exact behind prop sig hash algo := by
    refine ⟨?_, ?_⟩
    · rw [returns]
      exact ⟨fun ok => absurd ok error, fun verified => absurd verified unverified⟩
    · rw [returns, inside]
  have quotient : (prop.numBits.tdiv 8).natAbs = prop.numBits.natAbs / 8 := Int.natAbs_tdiv _ _
  by_cases length : sig.length = (prop.numBits.tdiv 8 % 2 ^ 32).toNat
  · by_cases long : sig.length > rsaMaxSigBits / 8
    · apply @failed ⟨.error .einval, true⟩ _ rfl (by simp)
      · rintro ⟨-, isPadLen, -⟩
        have short := wf.short
        omega
      · simp only [rsaVerifyKey]
        rw [if_neg (not_not.mpr length), if_pos long]
    · have isLength : sig.length = prop.numBits.tdiv 8 := by
        rw [rsaMaxSigBits] at long
        omega
      have notAccepted : ¬prop.Accepted := fun accepted => refused ⟨accepted, isLength⟩
      have power := rsaModExpSw_refused behind.modExp sig int notAccepted
      apply @failed ⟨.error .efault, true⟩ _ rfl (by simp)
      · rintro ⟨-, -, isPower⟩
        rw [power] at isPower
        cases isPower
      · simp only [rsaVerifyKey]
        rw [if_neg (not_not.mpr length), if_neg long, power]
  · apply @failed ⟨.error .einval, true⟩ _ rfl (by simp)
    · rintro ⟨isLength, -⟩
      omega
    · exact rsaVerifyKey_of_length length

/-- A signature that is as long as a key that is accepted. -/
theorem exact_of_accepted (wf : algo.WellFormed) (room : hash.length = algo.padLen)
    (accepted : prop.Accepted) (length : sig.length = prop.numBits.tdiv 8) :
    Exact behind prop sig hash algo ↔
      sig.length % 4 = 0 ∧
        (sig.length = algo.padLen ∨ ∀ out, (rsaModExpSw behind.modExp sig prop).ret = .ok out →
          Differ out (algo.rsaPadding ++ hash)) := by
  obtain ⟨inside, powerLength⟩ := rsaModExpSw_accepted behind.modExp accepted length
  have bits := accepted.bits
  have short : sig.length ≤ rsaMaxSigBits / 8 := by
    simp only [rsaMinKeyBits, rsaMaxKeyBits, rsaMaxSigBits] at bits ⊢
    rw [Int.tdiv_eq_ediv_of_nonneg (by omega)] at length
    omega
  have word : sig.length < 2 ^ 32 := by
    rw [rsaMaxSigBits] at short
    omega
  have isLength : sig.length = (prop.numBits.tdiv 8 % 2 ^ 32).toNat := by omega
  unfold Exact Verified
  obtain ⟨power, powerIs⟩ : ∃ x, rsaModExpSw behind.modExp sig prop = x := ⟨_, rfl⟩
  have call : rsaVerifyKey behind (some prop) (some sig) (some hash) (some algo) =
      match power.ret with
      | .error e => ⟨.error e, power.inside⟩
      | .ok out => ⟨(checkPower behind out hash algo).ret,
          power.inside && (checkPower behind out hash algo).inside⟩ := by
    simp only [rsaVerifyKey]
    rw [if_neg (not_not.mpr isLength), if_neg (by omega), powerIs]
  rw [call, powerIs]
  rw [powerIs] at inside powerLength
  match retIs : power.ret with
  | .error e =>
    simp only [reduceCtorEq, false_implies, implies_true, or_true, and_true, and_false, true_and]
    exact inside
  | .ok out =>
    have outLength := powerLength out retIs
    simp only [Except.ok.injEq, forall_eq', Bool.and_eq_true, inside]
    rcases @checkPower_cases behind out hash algo wf room (by omega) with
      ⟨differ, error, isInside⟩ | ⟨same, succeeds, stays⟩
    · have unverified (verified : (sig.length : Int) = prop.numBits.tdiv 8 ∧ sig.length = algo.padLen ∧
          out = algo.rsaPadding ++ hash.take algo.checksumLen) : False :=
        (eq_of_not_differ wf room (outLength.trans verified.2.1)).mpr verified.2.2 differ
      constructor
      · rintro ⟨-, whole, -⟩
        exact ⟨whole, .inr differ⟩
      · rintro ⟨whole, -⟩
        exact ⟨⟨fun ok => absurd ok error, fun verified => (unverified verified).elim⟩, whole,
          isInside⟩
    · constructor
      · rintro ⟨returns, whole, isInside⟩
        exact ⟨whole, .inl (returns.mp (succeeds isInside)).2.1⟩
      · rintro ⟨whole, isPadLen | differ⟩
        · have isInside := stays (outLength.trans isPadLen)
          have isOut := (eq_of_not_differ wf room (outLength.trans isPadLen)).mp same
          exact ⟨⟨fun _ => ⟨length, isPadLen, isOut⟩, fun _ => succeeds isInside⟩, whole, isInside⟩
        · exact absurd differ same

end Verify

/-- `rsa_verify_key` returns zero exactly for signatures whose power is the padded digest, and stays
inside its buffers, if and only if the signature is fitting. -/
theorem rsaVerifyKey_exact_iff (behind : Behind) (prop : KeyProp) (sig hash : List UInt8)
    (algo : ChecksumAlgo) (known : algo ∈ checksumAlgos) (room : hash.length = algo.padLen)
    (int : -2 ^ 31 ≤ prop.numBits ∧ prop.numBits < 2 ^ 31) :
    Exact behind prop sig hash algo ↔ Fitting behind prop sig hash algo := by
  have wf := checksumAlgos_wellFormed known
  by_cases both : prop.Accepted ∧ sig.length = prop.numBits.tdiv 8
  · rw [exact_of_accepted wf room both.1 both.2]
    exact ⟨fun fits _ _ => fits, fun fitting => fitting both.1 both.2⟩
  · constructor
    · intro _ accepted length
      exact absurd ⟨accepted, length⟩ both
    · intro _
      exact exact_of_refused wf int both

/-- Nothing but zeros behind the buffers. -/
def sampleBehind : Behind := ⟨Memory.blank, Memory.blank, Memory.blank⟩

/-- A key of so many bits. -/
def sampleProp (numBits : Int) : KeyProp :=
  ⟨some Memory.blank, some fun _ => 1, none, 0xffffffff, numBits⟩

/-- The algorithm for 2048 bits. -/
def sampleAlgo : ChecksumAlgo := ⟨"sha256", 32, 256, paddingSha256Rsa2048⟩

/-- A key of 2048 bits, and a signature as long as it. -/
theorem rsaVerifyKey_exact_2048 :
    Exact sampleBehind (sampleProp 2048) (List.replicate 256 2) (List.replicate 256 3) sampleAlgo := by
  apply (rsaVerifyKey_exact_iff sampleBehind (sampleProp 2048) (List.replicate 256 2)
    (List.replicate 256 3) sampleAlgo (List.mem_cons_of_mem _ (List.mem_cons_self ..))
    List.length_replicate (by decide)).mpr
  intro _ _
  rw [List.length_replicate]
  exact ⟨by decide, .inl rfl⟩

/-- A key of 2056 bits: the signature of 257 bytes is copied into a buffer of 64 words. -/
theorem rsaVerifyKey_outside :
    ¬Exact sampleBehind (sampleProp 2056) (List.replicate 257 2) (List.replicate 256 3) sampleAlgo := by
  have accepted : (sampleProp 2056).Accepted := ⟨by decide, by decide⟩
  have known : sampleAlgo ∈ checksumAlgos := List.mem_cons_of_mem _ (List.mem_cons_self ..)
  have length : ((List.replicate 257 (2 : UInt8)).length : Int) = (sampleProp 2056).numBits.tdiv 8 := by
    rw [List.length_replicate]
    rfl
  intro isExact
  have fits := (exact_of_accepted (checksumAlgos_wellFormed known) List.length_replicate accepted
    length).mp isExact
  rw [List.length_replicate] at fits
  exact absurd fits.1 (by decide)

end HrppBoot.Rsa
