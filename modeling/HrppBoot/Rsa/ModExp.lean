import HrppBoot.Lib.Words
import HrppBoot.Lib.Montgomery
import Mathlib.Data.Nat.Bitwise

/-!
# Modular exponentiation

`lib/rsa/rsa-mod-exp.c`, from `subtract_modulus` to `pow_mod`. Every value that is put into a 64-bit
accumulator is cut to 64 bits; beside the result it is kept whether all of them fitted.
-/

namespace HrppBoot.Rsa

open Words

structure RsaPublicKey where
  len : Nat
  n0inv : UInt32
  modulus : List UInt32
  rr : List UInt32
  exponent : UInt64

/-- The error numbers. -/
inductive Errno where
  | eperm
  | enoent
  | eio
  | ebadf
  | eacces
  | efault
  | einval
  deriving DecidableEq, Repr

/-- A result, and whether every accumulator fitted on the way to it. -/
structure Accumulated (α : Type) where
  result : α
  fits : Bool
  deriving DecidableEq

instance : Monad Accumulated where
  pure result := ⟨result, true⟩
  bind first next := ⟨(next first.result).result, first.fits && (next first.result).fits⟩

@[simp] theorem Accumulated.pure_bind {α β : Type} (result : α) (next : α → Accumulated β) :
    (pure result >>= next) = next result := rfl

/-- A value is put into a `uint64_t`. -/
def uint64 (sum : Nat) : Accumulated Nat := ⟨sum % 2 ^ 64, sum < 2 ^ 64⟩

/-- A value is put into an `int64_t`. -/
def int64 (sum : Int) : Accumulated Int := ⟨sum.bmod (2 ^ 64), -2 ^ 63 ≤ sum ∧ sum < 2 ^ 63⟩

def rsaMaxKeyBits : Nat := 4096

def rsaMinKeyBits : Nat := 2048

/-- The loop of `subtract_modulus`. -/
def subtractLoop : (acc : Int) → (num modulus : List UInt32) → Accumulated (List UInt32)
  | acc, n :: num, m :: modulus => do
    let acc ← int64 (acc + n.toNat - m.toNat)
    let rest ← subtractLoop (acc / 2 ^ 32) num modulus
    pure (UInt32.ofNat (acc % 2 ^ 32).toNat :: rest)
  | _, num, _ => pure num

/-- The loop of `greater_equal_modulus`, from the most significant word on. -/
def greaterEqualLoop : (num modulus : List UInt32) → Bool
  | n :: num, m :: modulus =>
    if n < m then false else if n > m then true else greaterEqualLoop num modulus
  | _, _ => true

/-- The loop of `montgomery_mul_add_step`, with the words from the second one on, and the top word;
with them the last value of `acc_a`. -/
def mulAddLoop (a d0 : UInt32) : (accA accB : Nat) → (result b modulus : List UInt32) →
    Accumulated (List UInt32 × Nat)
  | accA, accB, r :: result, b :: bs, m :: modulus => do
    let accA ← uint64 (accA / 2 ^ 32 + a.toNat * b.toNat + r.toNat)
    let accB ← uint64 (accB / 2 ^ 32 + d0.toNat * m.toNat + accA % 2 ^ 32)
    let (rest, top) ← mulAddLoop a d0 accA accB result bs modulus
    pure (UInt32.ofNat accB :: rest, top)
  | accA, accB, _, _, _ => do
    let accA ← uint64 (accA / 2 ^ 32 + accB / 2 ^ 32)
    pure ([UInt32.ofNat accA], accA)

namespace RsaPublicKey

variable (key : RsaPublicKey)

def subtractModulus (num : List UInt32) : Accumulated (List UInt32) :=
  subtractLoop 0 num key.modulus

def greaterEqualModulus (num : List UInt32) : Bool :=
  greaterEqualLoop num.reverse key.modulus.reverse

/-- `montgomery_mul_add_step`, for numbers of one word or more. -/
def montgomeryMulAddStep (result : List UInt32) (a : UInt32) (b : List UInt32) :
    Accumulated (List UInt32) :=
  match result, b, key.modulus with
  | r :: result, b0 :: bs, m :: modulus => do
    let accA ← uint64 (a.toNat * b0.toNat + r.toNat)
    let d0 := UInt32.ofNat accA * key.n0inv
    let accB ← uint64 (d0.toNat * m.toNat + accA % 2 ^ 32)
    let (words, top) ← mulAddLoop a d0 accA accB result bs modulus
    if top / 2 ^ 32 ≠ 0 then key.subtractModulus words else pure words
  | _, _, _ => pure result

/-- The second loop of `montgomery_mul`. -/
def mulLoop (b : List UInt32) : (a result : List UInt32) → Accumulated (List UInt32)
  | [], result => pure result
  | word :: a, result => do
    let result ← key.montgomeryMulAddStep result word b
    mulLoop b a result

def montgomeryMul (a b : List UInt32) : Accumulated (List UInt32) :=
  key.mulLoop b a (List.replicate key.len 0)

/-- The loop of `num_public_exponent_bits`. -/
def exponentBitsLoop : (tries bits exponent : Nat) → Except Errno Nat
  | 0, _, _ => .error .einval
  | tries + 1, bits, exponent =>
    if exponent / 2 = 0 then .ok bits else exponentBitsLoop tries (bits + 1) (exponent / 2)

def numPublicExponentBits : Except Errno Nat :=
  if key.exponent = 0 then .ok 0 else exponentBitsLoop 64 1 key.exponent.toNat

/-- `is_public_exponent_bit_set`; the value is returned as an `int`. -/
def isPublicExponentBitSet (pos : Nat) : Bool :=
  (key.exponent &&& (1 <<< UInt64.ofNat pos)).toUInt32 ≠ 0

/-- The loop of `pow_mod`, from bit `j` down to bit 1. -/
def powLoop (aScaled : List UInt32) : (j : Nat) → (acc : List UInt32) → Accumulated (List UInt32)
  | 0, acc => pure acc
  | j + 1, acc => do
    let tmp ← key.montgomeryMul acc acc
    let acc ← if key.isPublicExponentBitSet (j + 1) then key.montgomeryMul tmp aScaled else pure tmp
    powLoop aScaled j acc

/-- What `pow_mod` computes for an exponent of `k` bits. -/
def powWords (k : Nat) (val : List UInt32) : Accumulated (List UInt32) := do
  let acc ← key.montgomeryMul val key.rr
  let acc ← key.powLoop acc (k - 2) acc
  let tmp ← key.montgomeryMul acc acc
  let result ← key.montgomeryMul tmp val
  if key.greaterEqualModulus result then key.subtractModulus result else pure result

def powMod (inout : List UInt8) : Except Errno (Accumulated (List UInt8)) :=
  if key.len > rsaMaxKeyBits / 32 then .error .einval
  else
    let val := (ofBytes (inout.take (4 * key.len))).reverse
    match key.numPublicExponentBits with
    | .error e => .error e
    | .ok k =>
      if k < 2 then .error .einval
      else if !key.isPublicExponentBitSet 0 then .error .einval
      else .ok do
        let result ← key.powWords k val
        pure (toBytes result.reverse ++ inout.drop (4 * key.len))

end RsaPublicKey

end HrppBoot.Rsa
