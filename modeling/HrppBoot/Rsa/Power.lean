import HrppBoot.Rsa.ModExp
import Mathlib.Data.Int.ModEq
import Mathlib.Data.Nat.Prime.Basic
import Mathlib.Data.Nat.Size

/-!
# What modular exponentiation computes

Numbers of `len` words stay below the power of the base with `len` words, and no accumulator
overflows. One step of a product adds one word of a factor and divides by the base, modulo the
modulus. The bits of the exponent are read through an `int`, so that those from 32 on count only as
the leading one.
-/

namespace HrppBoot.Rsa

open Words Montgomery

/-! ## Words -/

theorem uint64_eq {sum : Nat} (fits : sum < 2 ^ 64) : uint64 sum = pure sum := by
  have whole : sum % 2 ^ 64 = sum := Nat.mod_eq_of_lt fits
  unfold uint64
  rw [whole, decide_eq_true fits]
  rfl

theorem int64_eq {sum : Int} (fits : -2 ^ 63 ≤ sum ∧ sum < 2 ^ 63) : int64 sum = pure sum := by
  have whole : sum.bmod (2 ^ 64) = sum := by
    apply Int.bmod_eq_of_le
    · omega
    · omega
  unfold int64
  rw [whole, decide_eq_true fits]
  rfl

/-- The difference of two numbers, word by word. -/
theorem subtractLoop_spec {num modulus : List UInt32} (same : num.length = modulus.length)
    {acc : Int} (borrow : -1 ≤ acc ∧ acc ≤ 0) :
    ∃ words, subtractLoop acc num modulus = pure words ∧ words.length = num.length ∧
      (value words : Int) ≡ acc + value num - value modulus [ZMOD (base ^ num.length : Nat)] := by
  induction num generalizing modulus acc with
  | nil =>
    have none : modulus = [] := List.length_eq_zero_iff.mp same.symm
    subst none
    refine ⟨[], rfl, rfl, ?_⟩
    simp [Int.modEq_one]
  | cons n num ih =>
    match modulus, same with
    | m :: modulus, same =>
      have nBound := n.toNat_lt
      have mBound := m.toNat_lt
      have sum : -2 ^ 63 ≤ acc + n.toNat - m.toNat ∧ acc + n.toNat - m.toNat < 2 ^ 63 := by omega
      obtain ⟨rest, rests, length, isRest⟩ := @ih modulus (by simpa using same)
        ((acc + n.toNat - m.toNat) / 2 ^ 32) (by omega)
      obtain ⟨word, wordIs⟩ : ∃ w, UInt32.ofNat ((acc + n.toNat - m.toNat) % 2 ^ 32).toNat = w :=
        ⟨_, rfl⟩
      have wordNat : (word.toNat : Int) = (acc + n.toNat - m.toNat) % 2 ^ 32 := by
        rw [← wordIs, toNat_ofNat, base]
        omega
      refine ⟨word :: rest, ?_, by simp [length], ?_⟩
      · simp only [subtractLoop, int64_eq sum, Accumulated.pure_bind, rests, wordIs]
      · have divided : acc + n.toNat - m.toNat =
            word.toNat + (base : Int) * ((acc + n.toNat - m.toNat) / 2 ^ 32) := by
          rw [wordNat, base]
          omega
        have shifted := isRest.mul_left' (c := (base : Int))
        have modulusIs : (base : Int) * (base ^ num.length : Nat) =
            ((base ^ (n :: num).length : Nat) : Int) := by
          rw [List.length_cons, pow_succ]
          push_cast
          ring
        rw [modulusIs] at shifted
        rw [value_cons, value_cons, value_cons]
        push_cast at shifted ⊢
        calc
          (word.toNat : Int) + base * value rest ≡ word.toNat + base *
              ((acc + n.toNat - m.toNat) / 2 ^ 32 + value num - value modulus)
              [ZMOD base ^ (num.length + 1)] := by
            have more := shifted.add_left (word.toNat : Int)
            simpa using more
          _ = acc + (n.toNat + base * value num) - (m.toNat + base * value modulus) := by
            linarith

/-- The comparison of two numbers, from the most significant word on. -/
theorem greaterEqualLoop_eq {num modulus : List UInt32} (same : num.length = modulus.length) :
    greaterEqualLoop num modulus = true ↔ value modulus.reverse ≤ value num.reverse := by
  induction num generalizing modulus with
  | nil =>
    have none : modulus = [] := List.length_eq_zero_iff.mp same.symm
    subst none
    simp [greaterEqualLoop]
  | cons n num ih =>
    match modulus, same with
    | m :: modulus, same =>
      have lengths : num.length = modulus.length := by simpa using same
      have low := value_lt num.reverse
      have modulusLow := value_lt modulus.reverse
      rw [List.length_reverse] at low modulusLow
      rw [value_reverse_cons, value_reverse_cons, lengths]
      rw [lengths] at low
      rw [greaterEqualLoop]
      split
      · rename_i less
        have words : n.toNat + 1 ≤ m.toNat := less
        have products : base ^ modulus.length * (n.toNat + 1) ≤ base ^ modulus.length * m.toNat :=
          Nat.mul_le_mul_left _ words
        simp only [Bool.false_eq_true, false_iff]
        rw [Nat.mul_add, Nat.mul_one] at products
        omega
      · split
        · rename_i greater
          have words : m.toNat + 1 ≤ n.toNat := greater
          have products : base ^ modulus.length * (m.toNat + 1) ≤ base ^ modulus.length * n.toNat :=
            Nat.mul_le_mul_left _ words
          rw [Nat.mul_add, Nat.mul_one] at products
          simp only [true_iff]
          omega
        · rename_i notLess notGreater
          have equal : n = m := by
            apply UInt32.toNat_inj.mp
            have := UInt32.not_lt.mp notLess
            have := UInt32.not_lt.mp notGreater
            exact Nat.le_antisymm (UInt32.le_iff_toNat_le.mp ‹_›) (UInt32.le_iff_toNat_le.mp ‹_›)
          rw [equal, ih lengths]
          omega

/-- The product of a word and a number and a multiple of the modulus are added to the result, and
the lowest word is dropped. -/
theorem mulAddLoop_spec (a d0 : UInt32) {result b modulus : List UInt32}
    (sameB : b.length = result.length) (sameModulus : modulus.length = result.length)
    {accA accB : Nat} (fitsA : accA < 2 ^ 64) (fitsB : accB < 2 ^ 64) :
    ∃ words top, mulAddLoop a d0 accA accB result b modulus = pure (words, top) ∧
      words.length = result.length + 1 ∧
      value words + base ^ words.length * (top / 2 ^ 32) =
        accA / 2 ^ 32 + accB / 2 ^ 32 + a.toNat * value b + value result +
          d0.toNat * value modulus := by
  have aBound := a.toNat_lt
  have dBound := d0.toNat_lt
  induction result generalizing b modulus accA accB with
  | nil =>
    have noB : b = [] := List.length_eq_zero_iff.mp sameB
    have noModulus : modulus = [] := List.length_eq_zero_iff.mp sameModulus
    subst noB noModulus
    have fits : accA / 2 ^ 32 + accB / 2 ^ 32 < 2 ^ 64 := by omega
    refine ⟨[UInt32.ofNat (accA / 2 ^ 32 + accB / 2 ^ 32)], accA / 2 ^ 32 + accB / 2 ^ 32,
      ?_, rfl, ?_⟩
    · simp only [mulAddLoop, uint64_eq fits, Accumulated.pure_bind]
    · simp only [value_cons, value_nil, toNat_ofNat, base, List.length_singleton, pow_one]
      omega
  | cons r result ih =>
    cases b with
    | nil => cases sameB
    | cons b0 b =>
      cases modulus with
      | nil => cases sameModulus
      | cons m modulus =>
        have rBound := r.toNat_lt
        have productA : a.toNat * b0.toNat ≤ (2 ^ 32 - 1) * (2 ^ 32 - 1) := by
          have := b0.toNat_lt
          exact Nat.mul_le_mul (by omega) (by omega)
        have productB : d0.toNat * m.toNat ≤ (2 ^ 32 - 1) * (2 ^ 32 - 1) := by
          have := m.toNat_lt
          exact Nat.mul_le_mul (by omega) (by omega)
        obtain ⟨nextA, nextAIs⟩ : ∃ x, accA / 2 ^ 32 + a.toNat * b0.toNat + r.toNat = x := ⟨_, rfl⟩
        have sumA : nextA < 2 ^ 64 := by omega
        obtain ⟨nextB, nextBIs⟩ : ∃ x, accB / 2 ^ 32 + d0.toNat * m.toNat + nextA % 2 ^ 32 = x :=
          ⟨_, rfl⟩
        have sumB : nextB < 2 ^ 64 := by omega
        obtain ⟨rest, top, rests, length, total⟩ := @ih b modulus (by simpa using sameB)
          (by simpa using sameModulus) nextA nextB sumA sumB
        refine ⟨UInt32.ofNat nextB :: rest, top, ?_, by simp [length], ?_⟩
        · simp only [mulAddLoop, nextAIs, uint64_eq sumA, Accumulated.pure_bind, nextBIs,
            uint64_eq sumB,
            rests]
        · have splitA : nextA = base * (nextA / 2 ^ 32) + nextA % 2 ^ 32 := by
            rw [base]
            omega
          have splitB : nextB = base * (nextB / 2 ^ 32) + nextB % base := by
            rw [base]
            omega
          rw [value_cons, value_cons, value_cons, value_cons, toNat_ofNat, List.length_cons,
            pow_succ]
          calc
            nextB % base + base * value rest + base ^ rest.length * base * (top / 2 ^ 32) =
                nextB % base + base * (value rest + base ^ rest.length * (top / 2 ^ 32)) := by ring
            _ = nextB % base + base * (nextA / 2 ^ 32 + nextB / 2 ^ 32 + a.toNat * value b +
                value result + d0.toNat * value modulus) := by rw [total]
            _ = (base * (nextB / 2 ^ 32) + nextB % base) + (base * (nextA / 2 ^ 32)) +
                base * (a.toNat * value b + value result + d0.toNat * value modulus) := by ring
            _ = accB / 2 ^ 32 + d0.toNat * m.toNat + (base * (nextA / 2 ^ 32) + nextA % 2 ^ 32) +
                base * (a.toNat * value b + value result + d0.toNat * value modulus) := by
              rw [← splitB, ← nextBIs]
              ring
            _ = accB / 2 ^ 32 + d0.toNat * m.toNat + (accA / 2 ^ 32 + a.toNat * b0.toNat + r.toNat) +
                base * (a.toNat * value b + value result + d0.toNat * value modulus) := by
              rw [← splitA, ← nextAIs]
            _ = _ := by ring

/-! ## Products -/

namespace RsaPublicKey

/-- The modulus. -/
def n (key : RsaPublicKey) : Nat := value key.modulus

/-- A key as it should be. -/
structure WellFormed (key : RsaPublicKey) : Prop where
  lengths : key.modulus.length = key.len ∧ key.rr.length = key.len
  bits : key.n.size = 32 * key.len
  odd : key.n % 2 = 1
  /-- `-1 / modulus[0] mod 2^32` -/
  inverse : (key.n * key.n0inv.toNat + 1) % 2 ^ 32 = 0
  square : value key.rr = 2 ^ (64 * key.len) % key.n

variable {key : RsaPublicKey}

section WellFormed

variable (wf : key.WellFormed)
include wf

theorem WellFormed.n_lt : key.n < base ^ key.len := by
  have bound := value_lt key.modulus
  rwa [wf.lengths.1] at bound

theorem WellFormed.n_pos : 0 < key.n := by
  have odd := wf.odd
  omega

theorem WellFormed.len_pos : 0 < key.len := by
  by_contra none
  have zero : key.len = 0 := by omega
  have bound := wf.n_lt
  rw [zero, pow_zero] at bound
  have some := wf.n_pos
  omega

theorem WellFormed.le_two_n : base ^ key.len ≤ 2 * key.n := by
  have positive := wf.len_pos
  have top : 2 ^ (32 * key.len - 1) ≤ key.n := Nat.lt_size.mp (by rw [wf.bits]; omega)
  calc
    base ^ key.len = 2 ^ (32 * key.len) := by rw [base, ← pow_mul]
    _ = 2 * 2 ^ (32 * key.len - 1) := by
      rw [← pow_succ']
      congr 1
      omega
    _ ≤ 2 * key.n := Nat.mul_le_mul_left 2 top

theorem WellFormed.coprime (k : Nat) : Nat.Coprime key.n (base ^ k) := by
  apply Nat.Coprime.pow_right
  rw [base]
  apply Nat.Coprime.pow_right
  exact Nat.coprime_two_right.mpr (Nat.odd_iff.mpr wf.odd)

theorem WellFormed.subtractModulus_of_le {num : List UInt32} (length : num.length = key.len)
    (large : key.n ≤ value num) :
    ∃ words, key.subtractModulus num = pure words ∧ words.length = key.len ∧
      value words = value num - key.n := by
  obtain ⟨words, subtracts, wordsLength, isValue⟩ :=
    @subtractLoop_spec num key.modulus (length.trans wf.lengths.1.symm) 0 (by omega)
  refine ⟨words, subtracts, wordsLength.trans length, ?_⟩
  have low := value_lt words
  have high := value_lt num
  rw [wordsLength] at low
  have difference : (value words : Int) ≡ (value num - key.n : Nat)
      [ZMOD (base ^ num.length : Nat)] := by
    rw [Nat.cast_sub large, n]
    simpa using isValue
  have equal := Int.natCast_modEq_iff.mp difference
  rwa [Nat.ModEq, Nat.mod_eq_of_lt low, Nat.mod_eq_of_lt (by omega)] at equal

theorem WellFormed.subtractModulus_of_lt {num : List UInt32} (length : num.length = key.len)
    (small : value num < key.n) :
    ∃ words, key.subtractModulus num = pure words ∧ words.length = key.len ∧
      value words = value num + base ^ key.len - key.n := by
  obtain ⟨words, subtracts, wordsLength, isValue⟩ :=
    @subtractLoop_spec num key.modulus (length.trans wf.lengths.1.symm) 0 (by omega)
  refine ⟨words, subtracts, wordsLength.trans length, ?_⟩
  have low := value_lt words
  have bound := wf.n_lt
  rw [wordsLength, length] at low
  have difference : (value words : Int) ≡ (value num + base ^ key.len - key.n : Nat)
      [ZMOD (base ^ key.len : Nat)] := by
    rw [Nat.cast_sub (by omega), Nat.cast_add]
    rw [length] at isValue
    have more := isValue.trans Int.add_modEq_right.symm
    have order : (0 : Int) + value num - value key.modulus + (base ^ key.len : Nat) =
        value num + (base ^ key.len : Nat) - key.n := by
      rw [n]
      ring
    rwa [order] at more
  have equal := Int.natCast_modEq_iff.mp difference
  rwa [Nat.ModEq, Nat.mod_eq_of_lt low, Nat.mod_eq_of_lt (by omega)] at equal

variable {b result : List UInt32}

/-- What one step adds up before the modulus is subtracted. -/
theorem WellFormed.montgomeryMulAddStep_sum (a : UInt32) (length : result.length = key.len)
    (lengthB : b.length = key.len) :
    ∃ (d0 : UInt32) (words : List UInt32) (top : Nat), key.montgomeryMulAddStep result a b =
        (if top / 2 ^ 32 ≠ 0 then key.subtractModulus words else pure words) ∧
      words.length = key.len ∧
      base * (value words + base ^ key.len * (top / 2 ^ 32)) =
        value result + a.toNat * value b + d0.toNat * key.n := by
  have positive := wf.len_pos
  obtain ⟨lengthModulus, -⟩ := wf.lengths
  match resultIs : result, bIs : b, modulusIs : key.modulus with
  | r :: rest, b0 :: bs, m :: modulus =>
    rw [modulusIs] at lengthModulus
    simp only [List.length_cons] at length lengthB lengthModulus
    have rBound := r.toNat_lt
    have aBound := a.toNat_lt
    have productA : a.toNat * b0.toNat ≤ (2 ^ 32 - 1) * (2 ^ 32 - 1) := by
      have := b0.toNat_lt
      exact Nat.mul_le_mul (by omega) (by omega)
    obtain ⟨accA, accAIs⟩ : ∃ x, a.toNat * b0.toNat + r.toNat = x := ⟨_, rfl⟩
    have fitsA : accA < 2 ^ 64 := by omega
    obtain ⟨d0, d0Is⟩ : ∃ x, UInt32.ofNat accA * key.n0inv = x := ⟨_, rfl⟩
    have dBound := d0.toNat_lt
    have productB : d0.toNat * m.toNat ≤ (2 ^ 32 - 1) * (2 ^ 32 - 1) := by
      have := m.toNat_lt
      exact Nat.mul_le_mul (by omega) (by omega)
    obtain ⟨accB, accBIs⟩ : ∃ x, d0.toNat * m.toNat + accA % 2 ^ 32 = x := ⟨_, rfl⟩
    have fitsB : accB < 2 ^ 64 := by omega
    obtain ⟨words, top, loops, wordsLength, total⟩ := @mulAddLoop_spec a d0 rest bs modulus
      (by omega) (by omega) accA accB fitsA fitsB
    have valueResult : value (r :: rest) = r.toNat + base * value rest := rfl
    have valueB : value (b0 :: bs) = b0.toNat + base * value bs := rfl
    have nIs : key.n = m.toNat + base * value modulus := by rw [n, modulusIs, value_cons]
    have resultBound := value_lt (r :: rest)
    have bBound := value_lt (b0 :: bs)
    rw [List.length_cons, length] at resultBound
    rw [List.length_cons, lengthB] at bBound
    rw [wordsLength, length] at total
    have lowIs : accA % base ≡ value (r :: rest) + a.toNat * value (b0 :: bs) [MOD base] := by
      have sum : value (r :: rest) + a.toNat * value (b0 :: bs) =
          accA + base * (value rest + a.toNat * value bs) := by
        rw [valueResult, valueB, ← accAIs]
        ring
      rw [sum]
      exact (Nat.mod_modEq _ _).trans (Nat.add_mul_mod_self_left _ _ _).symm
    have clears : base ∣ value (r :: rest) + a.toNat * value (b0 :: bs) + d0.toNat * key.n := by
      have d0Nat : d0.toNat = accA % base * key.n0inv.toNat % base := by
        rw [← d0Is, UInt32.toNat_mul, toNat_ofNat]
        rfl
      rw [d0Nat]
      exact dvd_clear (Nat.dvd_of_mod_eq_zero wf.inverse) _ _ lowIs
    have sum : value (r :: rest) + a.toNat * value (b0 :: bs) + d0.toNat * key.n =
        accB + base * (accA / 2 ^ 32 + a.toNat * value bs + value rest + d0.toNat * value modulus) := by
      have splitA : accA = base * (accA / 2 ^ 32) + accA % 2 ^ 32 := by
        rw [base]
        omega
      rw [valueResult, valueB, nIs, ← accBIs]
      calc
        r.toNat + base * value rest + a.toNat * (b0.toNat + base * value bs) +
            d0.toNat * (m.toNat + base * value modulus) = (a.toNat * b0.toNat + r.toNat) +
            d0.toNat * m.toNat +
            base * (a.toNat * value bs + value rest + d0.toNat * value modulus) := by
          ring
        _ = (base * (accA / 2 ^ 32) + accA % 2 ^ 32) + d0.toNat * m.toNat +
            base * (a.toNat * value bs + value rest + d0.toNat * value modulus) := by
          rw [accAIs, ← splitA]
        _ = _ := by ring
    have exact_ : accB = base * (accB / 2 ^ 32) := by
      rw [sum] at clears
      have low : base ∣ accB := (Nat.dvd_add_left (Dvd.intro _ rfl)).mp clears
      rw [base] at low ⊢
      omega
    refine ⟨d0, words, top, ?_, wordsLength.trans length, ?_⟩
    · unfold montgomeryMulAddStep
      rw [modulusIs]
      simp only [accAIs, uint64_eq fitsA, Accumulated.pure_bind, d0Is, accBIs,
        uint64_eq fitsB, loops]
    · rw [total, sum]
      nth_rewrite 2 [exact_]
      ring
  | [], _, _ => simp only [List.length_nil] at length; omega
  | _, [], _ => simp only [List.length_nil] at lengthB; omega
  | _, _, [] =>
    rw [modulusIs, List.length_nil] at lengthModulus
    omega

/-- One step adds a word's product and divides by the base. -/
theorem WellFormed.montgomeryMulAddStep_spec (a : UInt32) (length : result.length = key.len)
    (lengthB : b.length = key.len) :
    ∃ words, key.montgomeryMulAddStep result a b = pure words ∧ words.length = key.len ∧
      value words * base ≡ value result + a.toNat * value b [MOD key.n] := by
  obtain ⟨d0, words, top, steps, wordsLength, sum⟩ := wf.montgomeryMulAddStep_sum a length lengthB
  have resultBound := value_lt result
  have bBound := value_lt b
  rw [length] at resultBound
  rw [lengthB] at bBound
  have quotient : value words + base ^ key.len * (top / 2 ^ 32) < base ^ key.len + key.n := by
    have bound := Montgomery.div_lt (by decide) wf.n_pos resultBound (word_lt a) bBound (word_lt d0)
    rwa [← sum, Nat.mul_div_cancel_left _ (by decide)] at bound
  by_cases carry : top / 2 ^ 32 = 0
  · refine ⟨words, ?_, wordsLength, ?_⟩
    · rw [steps, if_neg (not_not.mpr carry)]
    · rw [carry, Nat.mul_zero, Nat.add_zero, Nat.mul_comm] at sum
      rw [sum]
      exact Nat.add_mul_mod_self_right _ _ _
  · have below := wf.n_lt
    have one : top / 2 ^ 32 = 1 := by
      by_contra more
      have two : base ^ key.len * 2 ≤ base ^ key.len * (top / 2 ^ 32) :=
        Nat.mul_le_mul_left _ (by omega)
      omega
    rw [one, Nat.mul_one] at quotient sum
    obtain ⟨reduced, subtracts, reducedLength, isReduced⟩ :=
      wf.subtractModulus_of_lt wordsLength (by omega)
    refine ⟨reduced, ?_, reducedLength, ?_⟩
    · rw [steps, if_pos carry, subtracts]
    · have back : value reduced * base + base * key.n =
          value result + a.toNat * value b + d0.toNat * key.n := by
        have whole : value reduced + key.n = value words + base ^ key.len := by omega
        rw [← sum, ← whole]
        ring
      calc
        value reduced * base ≡ value reduced * base + base * key.n [MOD key.n] :=
          (Nat.add_mul_mod_self_right _ _ _).symm
        _ = value result + a.toNat * value b + d0.toNat * key.n := back
        _ ≡ value result + a.toNat * value b [MOD key.n] := Nat.add_mul_mod_self_right _ _ _

theorem WellFormed.mulLoop_spec (lengthB : b.length = key.len) (a : List UInt32)
    (length : result.length = key.len) :
    ∃ words, key.mulLoop b a result = pure words ∧ words.length = key.len ∧
      value words * base ^ a.length ≡ value result + value a * value b [MOD key.n] := by
  induction a generalizing result with
  | nil =>
    refine ⟨result, rfl, length, ?_⟩
    simp [Nat.ModEq.refl]
  | cons word a ih =>
    obtain ⟨first, steps, firstLength, isFirst⟩ := wf.montgomeryMulAddStep_spec word length lengthB
    obtain ⟨words, loops, wordsLength, isWords⟩ := ih firstLength
    refine ⟨words, ?_, wordsLength, ?_⟩
    · simp only [mulLoop, steps, Accumulated.pure_bind, loops]
    · rw [List.length_cons, pow_succ, value_cons]
      calc
        value words * (base ^ a.length * base) = value words * base ^ a.length * base := by ring
        _ ≡ (value first + value a * value b) * base [MOD key.n] := isWords.mul_right base
        _ = value first * base + base * value a * value b := by ring
        _ ≡ value result + word.toNat * value b + base * value a * value b [MOD key.n] :=
          isFirst.add_right _
        _ = value result + (word.toNat + base * value a) * value b := by ring

theorem WellFormed.montgomeryMul_spec {a : List UInt32} (lengthA : a.length = key.len)
    (lengthB : b.length = key.len) :
    ∃ words, key.montgomeryMul a b = pure words ∧ words.length = key.len ∧
      IsProduct key.n (base ^ key.len) (value words) (value a) (value b) := by
  obtain ⟨words, loops, length, isProduct⟩ :=
    wf.mulLoop_spec lengthB a (List.length_replicate (n := key.len) (a := 0))
  refine ⟨words, loops, length, ?_⟩
  rwa [value_zeros, Nat.zero_add, lengthA] at isProduct

end WellFormed

/-! ## The exponent -/

/-- The exponent whose bits are seen: of the bits from 32 on only the leading one is. -/
def seenExponent (e : Nat) : Nat := 2 ^ e.log2 + e % 2 ^ min 32 e.log2

theorem isPublicExponentBitSet_eq {pos : Nat} (bound : pos < 64) :
    key.isPublicExponentBitSet pos = (decide (pos < 32) && key.exponent.toNat.testBit pos) := by
  have mask : (key.exponent &&& (1 <<< UInt64.ofNat pos)).toNat =
      (key.exponent.toNat.testBit pos).toNat * 2 ^ pos := by
    have shift : (1 <<< UInt64.ofNat pos : UInt64).toNat = 2 ^ pos := by
      have power : 2 ^ pos < 2 ^ 64 := Nat.pow_lt_pow_right (by decide) bound
      have place : pos % 2 ^ 64 = pos := Nat.mod_eq_of_lt (by omega)
      rw [UInt64.toNat_shiftLeft, UInt64.toNat_ofNat', place, Nat.mod_eq_of_lt bound,
        Nat.shiftLeft_eq]
      simpa using Nat.mod_eq_of_lt power
    rw [UInt64.toNat_and, shift, Nat.and_two_pow]
  have isInt : key.isPublicExponentBitSet pos =
      decide ((key.exponent.toNat.testBit pos).toNat * 2 ^ pos % 2 ^ 32 ≠ 0) := by
    unfold isPublicExponentBitSet
    rw [decide_eq_decide, ne_eq, ne_eq, ← UInt32.toNat_inj, UInt64.toNat_toUInt32, mask]
    rfl
  rw [isInt]
  by_cases low : pos < 32
  · have power : 2 ^ pos < 2 ^ 32 := Nat.pow_lt_pow_right (by decide) low
    have positive : 0 < 2 ^ pos := Nat.two_pow_pos pos
    cases key.exponent.toNat.testBit pos with
    | false => simp
    | true =>
      rw [Bool.toNat_true, Nat.one_mul, Nat.mod_eq_of_lt power]
      simp [low]
  · have multiple : 2 ^ 32 ∣ (key.exponent.toNat.testBit pos).toNat * 2 ^ pos :=
      Dvd.dvd.mul_left (Nat.pow_dvd_pow 2 (by omega)) _
    rw [Nat.mod_eq_zero_of_dvd multiple]
    simp [low]

theorem exponentBitsLoop_eq {tries : Nat} (bits : Nat) {e : Nat} (some : 0 < e)
    (enough : e.log2 < tries) : exponentBitsLoop tries bits e = .ok (bits + e.log2) := by
  induction tries generalizing bits e with
  | zero => omega
  | succ tries ih =>
    rw [exponentBitsLoop]
    split
    · rename_i one
      have isOne : e = 1 := by omega
      subst isOne
      rfl
    · rename_i more
      have halved : e.log2 = (e / 2).log2 + 1 := by
        rw [Nat.log2_def, if_pos (by omega)]
      rw [ih (bits + 1) (by omega) (by omega), halved]
      congr 1
      omega

/-- The exponent that the loop has walked through, from `x` and bit `j` on. -/
def walk (bit : Nat → Bool) : (j x : Nat) → Nat
  | 0, x => x
  | j + 1, x => walk bit j (2 * x + (bit (j + 1)).toNat)

theorem walk_eq (e : Nat) {bit : Nat → Bool} {j : Nat}
    (isBit : ∀ i, 1 ≤ i → i ≤ j → bit i = e.testBit i) : walk bit j (e / 2 ^ (j + 1)) = e / 2 := by
  induction j with
  | zero => rfl
  | succ j ih =>
    have next : 2 * (e / 2 ^ (j + 1 + 1)) + (bit (j + 1)).toNat = e / 2 ^ (j + 1) := by
      rw [isBit (j + 1) (by omega) (le_refl _), Nat.toNat_testBit, pow_succ 2 (j + 1),
        ← Nat.div_div_eq_div_mul]
      omega
    rw [walk, next]
    exact ih fun i low high => isBit i low (by omega)

section Odd

variable {e : Nat} (three : 3 ≤ e) (odd : e % 2 = 1)
include three

theorem one_le_log2 : 1 ≤ e.log2 := by
  have some : e ≠ 0 := by omega
  exact (Nat.le_log2 some).mpr (by omega)

omit three in
theorem testBit_seenExponent {i : Nat} (below : i < e.log2) :
    (seenExponent e).testBit i = (decide (i < 32) && e.testBit i) := by
  have place : decide (i < min 32 e.log2) = decide (i < 32) := by
    rw [decide_eq_decide]
    omega
  rw [seenExponent, Nat.testBit_two_pow_add_gt below, Nat.testBit_mod_two_pow, place]

omit three in
theorem seenExponent_div : seenExponent e / 2 ^ e.log2 = 1 := by
  have low : e % 2 ^ min 32 e.log2 < 2 ^ e.log2 :=
    (Nat.mod_lt _ (Nat.two_pow_pos _)).trans_le (Nat.pow_le_pow_right (by decide) (Nat.min_le_right _ _))
  rw [seenExponent, Nat.add_div_left _ (Nat.two_pow_pos _), Nat.div_eq_of_lt low]

include odd

theorem seenExponent_odd : seenExponent e % 2 = 1 := by
  have leading := one_le_log2 three
  have high : 2 ∣ 2 ^ e.log2 := Dvd.dvd.pow (dvd_refl 2) (by omega)
  have low : e % 2 ^ min 32 e.log2 % 2 = e % 2 :=
    Nat.mod_mod_of_dvd e (Dvd.dvd.pow (dvd_refl 2) (by omega))
  rw [seenExponent]
  omega

end Odd

/-! ## Powers -/

section Powers

variable (wf : key.WellFormed)
include wf

theorem WellFormed.powLoop_spec {v : Nat} {aScaled : List UInt32}
    (scaledLength : aScaled.length = key.len)
    (isScaled : IsScaled key.n (base ^ key.len) (value aScaled) v) (j x : Nat) {acc : List UInt32}
    (length : acc.length = key.len) (isPower : IsScaled key.n (base ^ key.len) (value acc) (v ^ x))
    :
    ∃ words, key.powLoop aScaled j acc = pure words ∧ words.length = key.len ∧
      IsScaled key.n (base ^ key.len) (value words) (v ^ walk key.isPublicExponentBitSet j x) := by
  have coprime := wf.coprime key.len
  induction j generalizing x acc with
  | zero => exact ⟨acc, rfl, length, isPower⟩
  | succ j ih =>
    obtain ⟨tmp, squares, tmpLength, isSquare⟩ := wf.montgomeryMul_spec length length
    have squared := isSquare.scaled coprime isPower isPower
    rw [← pow_add] at squared
    unfold powLoop walk
    rw [squares, Accumulated.pure_bind]
    cases key.isPublicExponentBitSet (j + 1) with
    | false =>
      rw [if_neg (by decide), Accumulated.pure_bind, Bool.toNat_false, Nat.add_zero, Nat.two_mul]
      exact ih (x + x) tmpLength squared
    | true =>
      obtain ⟨next, multiplies, nextLength, isNext⟩ := wf.montgomeryMul_spec tmpLength scaledLength
      have more := isNext.scaled coprime squared isScaled
      rw [← pow_succ, ← Nat.two_mul] at more
      rw [if_pos rfl, multiplies, Accumulated.pure_bind, Bool.toNat_true]
      exact ih (2 * x + 1) nextLength more

theorem WellFormed.reduce_spec {result : List UInt32} (length : result.length = key.len) :
    ∃ words, (if key.greaterEqualModulus result then key.subtractModulus result else pure result) =
        pure words ∧ words.length = key.len ∧ value words = value result % key.n := by
  have bound := value_lt result
  have twice := wf.le_two_n
  rw [length] at bound
  have compares : key.greaterEqualModulus result = true ↔ key.n ≤ value result := by
    have loop := @greaterEqualLoop_eq result.reverse key.modulus.reverse
      (by simp [length, wf.lengths.1])
    rwa [List.reverse_reverse, List.reverse_reverse] at loop
  by_cases large : key.n ≤ value result
  · obtain ⟨words, subtracts, wordsLength, isValue⟩ := wf.subtractModulus_of_le length large
    refine ⟨words, ?_, wordsLength, ?_⟩
    · rw [if_pos (compares.mpr large), subtracts]
    · rw [isValue, Nat.mod_eq_sub_mod large, Nat.mod_eq_of_lt (by omega)]
  · refine ⟨result, ?_, length, ?_⟩
    · rw [if_neg (fun above => large (compares.mp above))]
    · rw [Nat.mod_eq_of_lt (by omega)]

theorem WellFormed.powWords_spec (k : Nat) {val : List UInt32} (length : val.length = key.len) :
    ∃ words, key.powWords k val = pure words ∧ words.length = key.len ∧
      value words =
        value val ^ (2 * walk key.isPublicExponentBitSet (k - 2) 1 + 1) % key.n := by
  have coprime := wf.coprime key.len
  obtain ⟨first, scales, firstLength, isFirst⟩ := wf.montgomeryMul_spec length wf.lengths.2
  have square : value key.rr ≡ base ^ key.len * base ^ key.len [MOD key.n] := by
    have power : base ^ key.len * base ^ key.len = 2 ^ (64 * key.len) := by
      rw [base, ← pow_mul, ← pow_add]
      congr 1
      omega
    rw [wf.square, power]
    exact Nat.mod_modEq _ _
  have scaled := isFirst.scale coprime square
  obtain ⟨acc, loops, accLength, isPower⟩ := wf.powLoop_spec firstLength scaled (k - 2) 1 firstLength
    (by rwa [pow_one])
  obtain ⟨tmp, squares, tmpLength, isSquare⟩ := wf.montgomeryMul_spec accLength accLength
  have squared := isSquare.scaled coprime isPower isPower
  obtain ⟨result, multiplies, resultLength, isResult⟩ := wf.montgomeryMul_spec tmpLength length
  have power := isResult.unscaled coprime squared
  rw [← pow_add, ← Nat.two_mul, ← pow_succ] at power
  obtain ⟨words, reduces, wordsLength, isWords⟩ := wf.reduce_spec resultLength
  refine ⟨words, ?_, wordsLength, isWords.trans power⟩
  unfold powWords
  simp only [scales, loops, squares, multiplies, Accumulated.pure_bind]
  exact reduces

/-- `pow_mod` computes the power with the exponent whose bits it sees, without an overflow. -/
theorem WellFormed.powMod_spec {inout : List UInt8} (length : inout.length = 4 * key.len)
    (small : key.len ≤ rsaMaxKeyBits / 32) (three : 3 ≤ key.exponent.toNat)
    (odd : key.exponent.toNat % 2 = 1) :
    ∃ out, key.powMod inout = .ok (pure out) ∧ out.length = inout.length ∧
      bigEndian out = bigEndian inout ^ seenExponent key.exponent.toNat % key.n := by
  obtain ⟨e, eIs⟩ : ∃ e, key.exponent.toNat = e := ⟨_, rfl⟩
  have wide : e.log2 < 64 := by
    rw [← eIs]
    exact (Nat.log2_lt (by omega)).mpr key.exponent.toNat_lt
  rw [eIs] at three odd ⊢
  have leading := one_le_log2 three
  have bits : key.numPublicExponentBits = .ok (1 + e.log2) := by
    have some : key.exponent ≠ 0 := by
      intro zero
      rw [zero] at eIs
      have isZero : e = 0 := eIs.symm
      omega
    unfold numPublicExponentBits
    rw [if_neg some, eIs]
    exact exponentBitsLoop_eq 1 (by omega) wide
  have lowest : key.isPublicExponentBitSet 0 = true := by
    rw [isPublicExponentBitSet_eq (by decide), eIs, Nat.testBit_zero, odd]
    rfl
  have walked : 2 * walk key.isPublicExponentBitSet (1 + e.log2 - 2) 1 + 1 = seenExponent e := by
    have through := @walk_eq (seenExponent e) key.isPublicExponentBitSet (1 + e.log2 - 2) (by
      intro i low high
      rw [isPublicExponentBitSet_eq (by omega), testBit_seenExponent (by omega), eIs])
    have place : 1 + e.log2 - 2 + 1 = e.log2 := by omega
    rw [place, seenExponent_div] at through
    have isOdd := seenExponent_odd three odd
    omega
  have front : inout.take (4 * key.len) = inout := List.take_of_length_le length.le
  have behind : inout.drop (4 * key.len) = [] := List.drop_of_length_le length.le
  have valLength : (ofBytes inout).reverse.length = key.len := by
    rw [List.length_reverse, (ofBytes_spec key.len inout length).1]
  obtain ⟨words, powers, wordsLength, isPower⟩ := wf.powWords_spec (1 + e.log2) valLength
  refine ⟨toBytes words.reverse, ?_, ?_, ?_⟩
  · unfold powMod
    rw [if_neg (by omega), front, behind, bits]
    simp only [powers, Accumulated.pure_bind, List.append_nil]
    rw [if_neg (by omega), if_neg (by simp [lowest])]
  · rw [length_toBytes, List.length_reverse, wordsLength, length]
  · rw [bigEndian_toBytes, isPower, walked, (ofBytes_spec key.len inout length).2]

end Powers

/-- `pow_mod` leaves the power of the value it was given, and no accumulator overflows. -/
def Powers (key : RsaPublicKey) (inout : List UInt8) : Prop :=
  ∃ out, key.powMod inout = .ok ⟨out, true⟩ ∧ out.length = inout.length ∧
    bigEndian out = bigEndian inout ^ key.exponent.toNat % key.n

end RsaPublicKey

/-- `pow_mod` is right if and only if the key is not too long, and the bits of the exponent from 32
on make no difference to the power, the leading one excepted. -/
theorem powMod_powers_iff (key : RsaPublicKey) (inout : List UInt8) (wf : key.WellFormed)
    (three : 3 ≤ key.exponent.toNat) (odd : key.exponent.toNat % 2 = 1)
    (length : inout.length = 4 * key.len) :
    key.Powers inout ↔ key.len ≤ rsaMaxKeyBits / 32 ∧
      bigEndian inout ^ key.exponent.toNat ≡
        bigEndian inout ^ RsaPublicKey.seenExponent key.exponent.toNat [MOD key.n] := by
  constructor
  · rintro ⟨out, powers, -, isPower⟩
    have small : key.len ≤ rsaMaxKeyBits / 32 := by
      by_contra large
      unfold RsaPublicKey.powMod at powers
      rw [if_pos (by omega)] at powers
      cases powers
    obtain ⟨seen, sees, -, isSeen⟩ := wf.powMod_spec length small three odd
    have same : out = seen := by
      have both := powers.symm.trans sees
      injection both with equal
      exact congrArg Accumulated.result equal
    refine ⟨small, ?_⟩
    rw [same, isSeen] at isPower
    exact isPower.symm
  · rintro ⟨small, same⟩
    obtain ⟨seen, sees, seenLength, isSeen⟩ := wf.powMod_spec length small three odd
    exact ⟨seen, sees, seenLength, isSeen.trans same.symm⟩

/-- A key of 2048 bits with the modulus `2 ^ 2047 + 1`. -/
def sampleKey (exponent : UInt64) : RsaPublicKey :=
  ⟨64, 0xffffffff, 1 :: (List.replicate 62 0 ++ [0x80000000]), 4 :: List.replicate 63 0, exponent⟩

theorem sampleKey_n (exponent : UInt64) : (sampleKey exponent).n = 2 ^ 2047 + 1 := by
  show value (1 :: (List.replicate 62 0 ++ [0x80000000])) = 2 ^ 2047 + 1
  decide +kernel

theorem sampleKey_wellFormed (exponent : UInt64) : (sampleKey exponent).WellFormed := by
  refine ⟨⟨rfl, rfl⟩, ?_, ?_, ?_, ?_⟩
  · rw [sampleKey_n]
    apply Nat.le_antisymm
    · apply Nat.size_le.mpr
      have double (k : Nat) (some : k ≠ 0) : 2 ^ k + 1 < 2 ^ (k + 1) := by
        have large := Nat.one_lt_two_pow some
        rw [pow_succ]
        omega
      have bits : 32 * (sampleKey exponent).len = 2047 + 1 := rfl
      rw [bits]
      exact double 2047 (by decide)
    · apply Nat.lt_size.mpr
      show 2 ^ 2047 ≤ 2 ^ 2047 + 1
      exact Nat.le_add_right _ _
  · rw [sampleKey_n]
    decide +kernel
  · rw [sampleKey_n]
    show ((2 ^ 2047 + 1) * (0xffffffff : UInt32).toNat + 1) % 2 ^ 32 = 0
    decide +kernel
  · rw [sampleKey_n]
    show value (4 :: List.replicate 63 0) = 2 ^ (64 * 64) % (2 ^ 2047 + 1)
    decide +kernel

/-- The bytes of the number two. -/
def sampleTwo : List UInt8 := List.replicate 255 0 ++ [2]

/-- The usual exponent is seen. -/
theorem powMod_powers_65537 : (sampleKey 65537).Powers sampleTwo := by
  apply (powMod_powers_iff (sampleKey 65537) sampleTwo (sampleKey_wellFormed 65537) (by decide)
    (by decide) (by decide +kernel)).mpr
  have seen : RsaPublicKey.seenExponent (sampleKey 65537).exponent.toNat =
      (sampleKey 65537).exponent.toNat := by decide +kernel
  rw [seen]
  exact ⟨by decide, Nat.ModEq.refl _⟩

theorem two_pow_not_modEq (p q : Nat) :
    ¬2 ^ (46 * p + 37) ≡ 2 ^ (46 * q + 25) [MOD 2 ^ 2047 + 1] := by
  intro same
  have divides : 2 ^ 23 + 1 ∣ 2 ^ 2047 + 1 := by decide +kernel
  have turn (q k : Nat) : 2 ^ (46 * q + k) ≡ 2 ^ k [MOD 2 ^ 23 + 1] := by
    have once : 2 ^ 46 ≡ 1 [MOD 2 ^ 23 + 1] := by decide
    have times := (once.pow q).mul_right (2 ^ k)
    rwa [one_pow, Nat.one_mul, ← pow_mul, ← pow_add] at times
  have small := (turn p 37).symm.trans ((same.of_dvd divides).trans (turn q 25))
  exact absurd small (by decide)

/-- Bit 32 of the exponent `2 ^ 33 + 2 ^ 32 + 1` is not seen. -/
theorem powMod_unseen :
    (sampleKey 12884901889).WellFormed ∧ ¬(sampleKey 12884901889).Powers sampleTwo := by
  refine ⟨sampleKey_wellFormed _, ?_⟩
  rintro ⟨out, powers, -, isPower⟩
  obtain ⟨seen, sees, -, isSeen⟩ := @RsaPublicKey.WellFormed.powMod_spec _
    (sampleKey_wellFormed 12884901889) sampleTwo (by decide +kernel) (by decide) (by decide) (by decide)
  have same : out = seen := by
    have both := powers.symm.trans sees
    injection both with equal
    exact congrArg Accumulated.result equal
  have isTwo : bigEndian sampleTwo = 2 := by decide +kernel
  have isExponent : (sampleKey 12884901889).exponent.toNat = 46 * 280106562 + 37 := by decide +kernel
  have isSeenExponent : RsaPublicKey.seenExponent (46 * 280106562 + 37) = 46 * 186737708 + 25 := by
    decide +kernel
  rw [same, isSeen, sampleKey_n, isTwo, isExponent, isSeenExponent] at isPower
  exact two_pow_not_modEq 280106562 186737708 isPower.symm

end HrppBoot.Rsa
