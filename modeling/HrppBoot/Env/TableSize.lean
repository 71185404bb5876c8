import HrppBoot.Env.HashTable

/-!
# The size of the hash table

`isprime` and the loop of `hcreate_r` with the 32-bit arithmetic of the code, and the buckets that
`hsearch_r` visits in a table of prime size.
-/

namespace HrppBoot.Env.TableSize

/-! ## Primes -/

/-- The loop of `isprime`, where it ends within `fuel` turns. -/
def isprimeLoop (number : Nat) : (fuel div : Nat) → Option Bool
  | 0, _ => none
  | fuel + 1, div =>
    if div * div % 2 ^ 32 < number ∧ number % div ≠ 0 then
      isprimeLoop number fuel ((div + 2) % 2 ^ 32)
    else some (number % div ≠ 0)

def isprime (number : Nat) : Option Bool := isprimeLoop number (2 ^ 31) 3

/-- `while (!isprime(nel)) nel += 2;`, where it ends within `fuel` turns. -/
def sizeLoop : (fuel nel : Nat) → Option Nat
  | 0, _ => none
  | fuel + 1, nel =>
    match isprime nel with
    | none => none
    | some true => some nel
    | some false => sizeLoop fuel ((nel + 2) % 2 ^ 32)

/-- The size of the table that `hcreate_r` makes for `nel` entries. -/
def hcreateSize (nel : Nat) : Option Nat := sizeLoop (2 ^ 31 + 1) (nel ||| 1)

variable {number fuel div : Nat}

/-- The loop does not accept a composite number: it meets its least factor before the squares
overflow. -/
theorem isprimeLoop_composite (odd : number % 2 = 1) (fits : number < 2 ^ 32)
    (composite : ¬number.Prime) (large : 1 < number) (oddDiv : div % 2 = 1) (three : 3 ≤ div)
    (below : div ≤ number.minFac) : isprimeLoop number fuel div ≠ some true := by
  have square : number.minFac * number.minFac ≤ number := by
    have := Nat.minFac_sq_le_self (by omega) composite
    rwa [pow_two] at this
  have divides := Nat.minFac_dvd number
  have oddFactor : number.minFac % 2 = 1 := by
    rcases (Nat.minFac_prime (Nat.ne_of_gt large)).eq_two_or_odd with two | oddFactor
    · rw [two] at divides
      omega
    · exact oddFactor
  induction fuel generalizing div with
  | zero => exact Option.some_ne_none true ∘ Eq.symm
  | succ fuel ih =>
    rw [isprimeLoop]
    rcases Nat.lt_or_eq_of_le below with less | rfl
    · have squares : div * div < number.minFac * number.minFac := Nat.mul_self_lt_mul_self less
      have small : number.minFac < 2 ^ 16 := by
        by_contra high
        have : 2 ^ 16 * 2 ^ 16 ≤ number.minFac * number.minFac :=
          Nat.mul_le_mul (Nat.not_lt.mp high) (Nat.not_lt.mp high)
        omega
      have coprime : number % div ≠ 0 := by
        intro zero
        have := Nat.minFac_le_of_dvd (by omega) (Nat.dvd_of_mod_eq_zero zero)
        omega
      rw [Nat.mod_eq_of_lt (by omega), if_pos ⟨by omega, coprime⟩, Nat.mod_eq_of_lt (by omega)]
      exact ih (by omega) (by omega) (by omega)
    · have zero : number % number.minFac = 0 := Nat.mod_eq_zero_of_dvd divides
      rw [if_neg fun goes => goes.2 zero, zero]
      decide

theorem prime_of_isprime (odd : number % 2 = 1) (fits : number < 2 ^ 32) (large : 3 < number)
    (accepted : isprime number = some true) : number.Prime := by
  by_contra composite
  have three : 3 ≤ number.minFac := by
    have two := (Nat.minFac_prime (show number ≠ 1 by omega)).two_le
    have divides := Nat.minFac_dvd number
    rcases Nat.lt_or_eq_of_le two with more | same
    · exact more
    · rw [← same] at divides
      omega
  exact isprimeLoop_composite odd fits composite (by omega) (by decide) (Nat.le_refl 3) three
    accepted

theorem isprimeLoop_ends (odd : number % 2 = 1) (fits : number < 2 ^ 32) (oddDiv : div % 2 = 1)
    (within : div ≤ number) (enough : number < div + 2 * fuel) :
    ∃ answer, isprimeLoop number fuel div = some answer := by
  induction fuel generalizing div with
  | zero => omega
  | succ fuel ih =>
    rw [isprimeLoop]
    by_cases goes : div * div % 2 ^ 32 < number ∧ number % div ≠ 0
    · have other : div ≠ number := by
        rintro rfl
        exact goes.2 (Nat.mod_self _)
      rw [if_pos goes, Nat.mod_eq_of_lt (by omega)]
      exact ih (by omega) (by omega) (by omega)
    · exact ⟨_, if_neg goes⟩

theorem isprime_one : isprime 1 = some true := by
  rw [isprime, show 2 ^ 31 = 2147483647 + 1 by rfl, isprimeLoop, if_neg (by decide)]
  rfl

theorem isprime_ends (odd : number % 2 = 1) (fits : number < 2 ^ 32) :
    ∃ answer, isprime number = some answer := by
  rcases Nat.lt_or_ge number 3 with small | three
  · obtain rfl : number = 1 := by omega
    exact ⟨true, isprime_one⟩
  · exact isprimeLoop_ends odd fits (by decide) three (by omega)

variable {nel size : Nat}

theorem sizeLoop_ends (odd : nel % 2 = 1) (fits : nel < 2 ^ 32)
    (enough : 2 ^ 32 + 2 < nel + 2 * fuel) :
    ∃ size, sizeLoop fuel nel = some size ∧ size % 2 = 1 ∧ size < 2 ^ 32 ∧
      isprime size = some true := by
  induction fuel generalizing nel with
  | zero => omega
  | succ fuel ih =>
    obtain ⟨answer, found⟩ := isprime_ends odd fits
    rw [sizeLoop, found]
    cases answer with
    | true => exact ⟨nel, rfl, odd, fits, found⟩
    | false =>
      dsimp only
      rcases Nat.lt_or_ge (nel + 2) (2 ^ 32) with less | wraps
      · rw [Nat.mod_eq_of_lt less]
        exact ih (by omega) less (by omega)
      · rw [show (nel + 2) % 2 ^ 32 = 1 by omega]
        obtain ⟨left, rfl⟩ : ∃ left, fuel = left + 1 := ⟨fuel - 1, by omega⟩
        exact ⟨1, by rw [sizeLoop, isprime_one], rfl, by decide, isprime_one⟩

theorem or_one (fits : nel < 2 ^ 32) : (nel ||| 1) % 2 = 1 ∧ nel ||| 1 < 2 ^ 32 := by
  refine ⟨?_, Nat.or_lt_two_pow fits (by decide)⟩
  simp

theorem hcreateSize_ends (fits : nel < 2 ^ 32) :
    ∃ size, hcreateSize nel = some size ∧ size % 2 = 1 ∧ size < 2 ^ 32 ∧
      isprime size = some true := by
  have odd := or_one fits
  exact sizeLoop_ends odd.1 odd.2 (by omega)

/-! ## Without overflows -/

theorem isprimeLoop_eq (odd : number % 2 = 1) (small : number ≤ 65535 * 65535)
    (oddDiv : div % 2 = 1) (below : div ≤ 65535) (within : div ≤ number)
    (enough : number < div + 2 * fuel) :
    isprimeLoop number fuel div = some (Env.isprimeLoop number div) := by
  induction fuel generalizing div with
  | zero => omega
  | succ fuel ih =>
    have squares : div * div ≤ 65535 * 65535 := Nat.mul_le_mul below below
    rw [isprimeLoop, Env.isprimeLoop, Nat.mod_eq_of_lt (by omega)]
    by_cases goes : div * div < number ∧ number % div ≠ 0
    · have other : div ≠ number := by
        rintro rfl
        exact goes.2 (Nat.mod_self _)
      have less : div < 65535 := by
        by_contra high
        have : 65535 * 65535 ≤ div * div := Nat.mul_le_mul (Nat.not_lt.mp high) (Nat.not_lt.mp high)
        omega
      rw [if_pos goes, if_pos goes, Nat.mod_eq_of_lt (by omega)]
      exact ih (by omega) (by omega) (by omega) (by omega)
    · rw [if_neg goes, if_neg goes]

theorem isprime_eq (odd : number % 2 = 1) (small : number ≤ 65535 * 65535) :
    isprime number = some (Env.isprime number) := by
  rcases Nat.lt_or_ge number 3 with one | three
  · obtain rfl : number = 1 := by omega
    rw [isprime_one, (Env.isprime_iff odd).mpr (.inl rfl)]
  · exact isprimeLoop_eq odd small (by decide) (by decide) three (by omega)

/-! ## Buckets -/

/-- `1 + hval % (htab->size - 2)`, where the divisor is not zero. -/
def secondHash (size hval : Nat) : Option Nat :=
  let divisor := (size + 2 ^ 32 - 2) % 2 ^ 32
  if divisor = 0 then none else some (1 + hval % divisor)

/-- A step of the `do` loop of `hsearch_r`. -/
def nextIdx (size hval2 idx : Nat) : Nat :=
  if idx ≤ hval2 then ((size + idx) % 2 ^ 32 + 2 ^ 32 - hval2) % 2 ^ 32 else idx - hval2

/-- The bucket that is looked at after some steps. -/
def visited (size hval2 hval : Nat) (steps : Nat) : Nat := (nextIdx size hval2)^[steps] hval

/-- From a bucket on, the search visits every bucket once before it is back. -/
def VisitsAll (size hval : Nat) : Prop :=
  ∃ hval2, secondHash size hval = some hval2 ∧
    (∀ steps < size, 1 ≤ visited size hval2 hval steps ∧ visited size hval2 hval steps ≤ size) ∧
    (∀ bucket, 1 ≤ bucket → bucket ≤ size →
      ∃! steps, steps < size ∧ visited size hval2 hval steps = bucket) ∧
    visited size hval2 hval size = hval

theorem nextIdx_eq {hval2 idx : Nat} (fits : size < 2 ^ 32) (step : hval2 < size)
    (bucket : 1 ≤ idx ∧ idx ≤ size) : nextIdx size hval2 idx = Probe.next size hval2 idx := by
  unfold nextIdx Probe.next
  split
  · omega
  · rfl

theorem visited_eq {hval2 hval : Nat} (fits : size < 2 ^ 32) (positive : 0 < hval2)
    (step : hval2 < size) (bucket : 1 ≤ hval ∧ hval ≤ size) (steps : Nat) :
    visited size hval2 hval steps = Probe.path size hval2 hval steps := by
  induction steps with
  | zero => rw [visited, Probe.path, Function.iterate_zero_apply, Function.iterate_zero_apply]
  | succ steps ih =>
    have inside := Probe.path_bounds positive step bucket steps
    rw [visited, Function.iterate_succ_apply', ← visited, ih, nextIdx_eq fits step inside,
      Probe.path_succ]

theorem visitsAll_of_prime {hval : Nat} (fits : size < 2 ^ 32) (prime : size.Prime) (odd : size ≠ 2)
    (low : 1 ≤ hval) (high : hval < size) : VisitsAll size hval := by
  have two := prime.two_le
  have divisor : (size + 2 ^ 32 - 2) % 2 ^ 32 = size - 2 := by omega
  have second : secondHash size hval = some (1 + hval % (size - 2)) := by
    rw [secondHash, divisor]
    exact if_neg (by omega)
  have bound : hval % (size - 2) < size - 2 := Nat.mod_lt _ (by omega)
  have positive : 0 < 1 + hval % (size - 2) := by omega
  have step : 1 + hval % (size - 2) < size := by omega
  have bucket : 1 ≤ hval ∧ hval ≤ size := ⟨low, by omega⟩
  refine ⟨_, second, ?_⟩
  simp only [visited_eq fits positive step bucket]
  refine ⟨fun steps _ => Probe.path_bounds positive step bucket steps, ?_,
    Probe.path_size positive step bucket⟩
  intro slot first last
  obtain ⟨steps, less, there⟩ := Probe.path_surjective positive step bucket prime ⟨first, last⟩
  refine ⟨steps, ⟨less, there⟩, ?_⟩
  rintro other ⟨otherLess, otherThere⟩
  exact Probe.path_injOn positive step prime otherLess less (otherThere.trans there.symm)

/-- In a table of size 2 the step divides by zero. -/
theorem two_not_visited :
    ¬∀ size, size < 2 ^ 32 → size.Prime → ∀ hval, 1 ≤ hval → hval < size →
      VisitsAll size hval := by
  intro all
  obtain ⟨hval2, second, -⟩ := all 2 (by decide) Nat.prime_two 1 (Nat.le_refl 1) Nat.one_lt_two
  have divides : secondHash 2 1 = none := by decide
  rw [divides] at second
  cases second

/-- The sizes above 3 that `hcreate_r` finds are prime, and so is every odd number above 3 that
`isprime` accepts; in a table of odd prime size every bucket is visited once. -/
theorem prime_sizes_visit_all :
    (∀ nel < 2 ^ 32, ∃ size, hcreateSize nel = some size ∧ size % 2 = 1 ∧ size < 2 ^ 32 ∧
      (3 < size → size.Prime)) ∧
    (∀ nel < 2 ^ 32, nel % 2 = 1 → 3 < nel → isprime nel = some true → nel.Prime) ∧
    ∀ size < 2 ^ 32, size.Prime → size % 2 = 1 → ∀ hval, 1 ≤ hval → hval < size →
      VisitsAll size hval := by
  refine ⟨?_, fun nel fits odd large => prime_of_isprime odd fits large, ?_⟩
  · intro nel fits
    obtain ⟨size, found, odd, sizeFits, accepted⟩ := hcreateSize_ends fits
    exact ⟨size, found, odd, sizeFits, fun large => prime_of_isprime odd sizeFits large accepted⟩
  · intro size fits prime odd hval low high
    exact visitsAll_of_prime fits prime (by omega) low high

/-- A table of five buckets. -/
theorem five_buckets_visited : Nat.Prime 5 ∧ VisitsAll 5 4 := by
  have prime : Nat.Prime 5 := by decide
  exact ⟨prime, prime_sizes_visit_all.2.2 5 (by decide) prime rfl 4 (by decide) (by decide)⟩

end HrppBoot.Env.TableSize
