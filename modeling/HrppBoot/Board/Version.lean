import Mathlib.Data.UInt

/-!
# The version of the board

`setup_gpio_io_fast` tells the version of the board by two pins. Each is read in pairs until the two
reads agree; both loops count the pairs that do not in the same counter. A pin is the stream of what
its reads return.
-/

namespace HrppBoot.Board

/-! ## The function -/

inductive Decision where
  | low
  | high
  | timeout
  deriving DecidableEq

structure Debounced where
  decision : Decision
  mismatches : Nat
  cnt : Nat
  deriving DecidableEq

/-- A loop over the pairs of a pin, with the counter it starts with. It has no result when the
passes do not suffice. -/
def debounce (pin : Nat → UInt8) : Nat → Nat → Nat → Option Debounced
  | 0, _, _ => none
  | passes + 1, pair, cnt =>
    let tmp1 := pin (2 * pair)
    if tmp1 = pin (2 * pair + 1) then
      some ⟨if tmp1 &&& 1 = 0 then .low else .high, pair, cnt⟩
    else
      let cnt := (cnt + 1) % 256
      if 100 < cnt then some ⟨.timeout, pair + 1, cnt⟩ else debounce pin passes (pair + 1) cnt

/-- What `setup_gpio_io_fast` leaves. -/
structure BoardSetup where
  /-- `Board_Version`. -/
  version : Nat
  usbPower : Nat
  second : Option Debounced
  cnt : Nat
  deriving DecidableEq

/-- `Board_Version` behind the first loop. -/
def versionOfFirst : Decision → Nat
  | .low => 1
  | .high => 2
  | .timeout => 2

/-- `Board_Version` behind the second loop. -/
def versionOfSecond : Decision → Nat
  | .low => 3
  | .high => 2
  | .timeout => 3

/-- `setup_gpio_io_fast`, with GPIO2_10 and GPIO4_5. -/
def setupGpioIoFast (passes : Nat) (gpio210 gpio45 : Nat → UInt8) : Option BoardSetup := do
  let first ← debounce gpio210 passes 0 0
  let version := versionOfFirst first.decision
  let usbPower := if version = 1 then 0 else 1
  if version = 2 then
    let second ← debounce gpio45 passes 0 first.cnt
    some ⟨versionOfSecond second.decision, usbPower, some second, second.cnt⟩
  else some ⟨version, usbPower, none, first.cnt⟩

/-! ## A loop -/

section Loop

variable {pin : Nat → UInt8}

def PairAgrees (pin : Nat → UInt8) (pair : Nat) : Prop := pin (2 * pair) = pin (2 * pair + 1)

instance (pin : Nat → UInt8) (pair : Nat) : Decidable (PairAgrees pin pair) :=
  inferInstanceAs (Decidable (_ = _))

def level (pin : Nat → UInt8) (pair : Nat) : Decision :=
  if pin (2 * pair) &&& 1 = 0 then .low else .high

/-- The pairs before the first one that agrees, 101 if none of the first 101 does. -/
def noise (pin : Nat → UInt8) : Nat := ((List.range 101).find? (PairAgrees pin ·)).getD 101

/-- What the reads of a pin say on their own: the level of the first pair that agrees, before 101
pairs do not. -/
def verdict (pin : Nat → UInt8) : Decision :=
  if noise pin = 101 then .timeout else level pin (noise pin)

theorem noise_spec (pin : Nat → UInt8) :
    noise pin ≤ 101 ∧ (∀ pair < noise pin, ¬PairAgrees pin pair) ∧
      (noise pin < 101 → PairAgrees pin (noise pin)) := by
  unfold noise
  cases found : (List.range 101).find? (PairAgrees pin ·) with
  | none =>
    refine ⟨Nat.le_refl _, fun pair less => ?_, fun less => absurd less (Nat.lt_irrefl _)⟩
    have none := List.find?_eq_none.mp found pair (List.mem_range.mpr less)
    simpa using none
  | some n =>
    obtain ⟨agrees, member, before⟩ := List.find?_range_eq_some.mp found
    have small := List.mem_range.mp member
    refine ⟨Nat.le_of_lt small, fun pair less => ?_, fun _ => by simpa using agrees⟩
    simpa using before pair less

theorem debounce_agrees {passes pair cnt ahead : Nat} (enough : ahead < passes)
    (before : ∀ j < ahead, ¬PairAgrees pin (pair + j)) (here : PairAgrees pin (pair + ahead))
    (low : ahead = 0 ∨ cnt + ahead ≤ 100) :
    debounce pin passes pair cnt = some ⟨level pin (pair + ahead), pair + ahead, cnt + ahead⟩ := by
  induction ahead generalizing passes pair cnt with
  | zero =>
    obtain ⟨passes, rfl⟩ := Nat.exists_eq_succ_of_ne_zero (Nat.ne_of_gt enough)
    unfold debounce
    exact if_pos here
  | succ ahead ih =>
    obtain ⟨passes, rfl⟩ := Nat.exists_eq_succ_of_ne_zero (Nat.ne_of_gt (Nat.zero_lt_of_lt enough))
    have differs : ¬pin (2 * pair) = pin (2 * pair + 1) := before 0 (Nat.succ_pos _)
    have count : (cnt + 1) % 256 = cnt + 1 := Nat.mod_eq_of_lt (by omega)
    have order : ∀ j, pair + 1 + j = pair + (j + 1) := fun j => by omega
    unfold debounce
    rw [if_neg differs]
    simp only [count]
    rw [if_neg (by omega), ih (by omega) ?_ ?_ (by omega), order]
    · congr 2
      omega
    · intro j less
      rw [order]
      exact before (j + 1) (by omega)
    · rw [order]
      exact here

theorem debounce_timeout {passes pair cnt ahead : Nat} (enough : ahead < passes)
    (before : ∀ j ≤ ahead, ¬PairAgrees pin (pair + j)) (low : ahead = 0 ∨ cnt + ahead ≤ 100)
    (full : 100 < cnt + ahead + 1) (small : cnt ≤ 200) :
    debounce pin passes pair cnt = some ⟨.timeout, pair + ahead + 1, cnt + ahead + 1⟩ := by
  induction ahead generalizing passes pair cnt with
  | zero =>
    obtain ⟨passes, rfl⟩ := Nat.exists_eq_succ_of_ne_zero (Nat.ne_of_gt enough)
    have differs : ¬pin (2 * pair) = pin (2 * pair + 1) := before 0 (Nat.le_refl _)
    have count : (cnt + 1) % 256 = cnt + 1 := Nat.mod_eq_of_lt (by omega)
    unfold debounce
    rw [if_neg differs]
    simp only [count]
    rw [if_pos (by omega)]
  | succ ahead ih =>
    obtain ⟨passes, rfl⟩ := Nat.exists_eq_succ_of_ne_zero (Nat.ne_of_gt (Nat.zero_lt_of_lt enough))
    have differs : ¬pin (2 * pair) = pin (2 * pair + 1) := before 0 (Nat.zero_le _)
    have count : (cnt + 1) % 256 = cnt + 1 := Nat.mod_eq_of_lt (by omega)
    unfold debounce
    rw [if_neg differs]
    simp only [count]
    rw [if_neg (by omega), ih (by omega) ?_ (by omega) (by omega) (by omega)]
    · congr 2 <;> omega
    · intro j most
      have order : pair + 1 + j = pair + (j + 1) := by omega
      rw [order]
      exact before (j + 1) (by omega)

variable {passes : Nat}

theorem debounce_fresh (pin : Nat → UInt8) (enough : 101 ≤ passes) :
    debounce pin passes 0 0 = some ⟨verdict pin, noise pin, noise pin⟩ := by
  obtain ⟨most, before, here⟩ := noise_spec pin
  unfold verdict
  split
  case isTrue full =>
    rw [@debounce_timeout _ _ _ _ 100 (by omega) ?_ (by omega) (by omega) (by omega), full]
    intro j less
    rw [Nat.zero_add]
    exact before j (by omega)
  case isFalse found =>
    rw [@debounce_agrees _ _ _ _ (noise pin) (by omega) ?_ ?_ (by omega)]
    · simp only [Nat.zero_add]
    · intro j less
      rw [Nat.zero_add]
      exact before j less
    · rw [Nat.zero_add]
      exact here (by omega)

theorem debounce_quiet (pin : Nat → UInt8) {cnt : Nat} (enough : 101 ≤ passes)
    (quiet : noise pin = 0 ∨ cnt + noise pin ≤ 100) :
    debounce pin passes 0 cnt = some ⟨verdict pin, noise pin, cnt + noise pin⟩ := by
  obtain ⟨most, before, here⟩ := noise_spec pin
  have found : noise pin ≠ 101 := by omega
  unfold verdict
  rw [if_neg found, @debounce_agrees _ _ _ _ (noise pin) (by omega) ?_ ?_ quiet]
  · simp only [Nat.zero_add]
  · intro j less
    rw [Nat.zero_add]
    exact before j less
  · rw [Nat.zero_add]
    exact here (by omega)

theorem debounce_noisy (pin : Nat → UInt8) {cnt : Nat} (enough : 101 ≤ passes) (small : cnt ≤ 101)
    (noisy : noise pin ≠ 0) (full : 100 < cnt + noise pin) :
    debounce pin passes 0 cnt =
      some ⟨.timeout, 100 - cnt + 1, cnt + (100 - cnt) + 1⟩ := by
  obtain ⟨most, before, -⟩ := noise_spec pin
  rw [@debounce_timeout _ _ _ _ (100 - cnt) (by omega) ?_ (by omega) (by omega) (by omega),
    Nat.zero_add]
  intro j less
  rw [Nat.zero_add]
  exact before j (by omega)

end Loop

/-! ## Both loops -/

/-- The two loops are independent: the version is 1 exactly if GPIO2_10 says so on its own, and
otherwise it is decided by the first pair of GPIO4_5 that agrees, or by a timeout after more than
100 pairs of GPIO4_5 that do not. -/
structure Independent (gpio210 gpio45 : Nat → UInt8) (setup : BoardSetup) : Prop where
  first : setup.version = 1 ↔ verdict gpio210 = .low
  second : setup.version ≠ 1 → ∃ decided, setup.second = some decided ∧
    setup.version = versionOfSecond decided.decision ∧
    (decided.decision = .timeout → 100 < decided.mismatches) ∧
    (decided.decision ≠ .timeout → (∀ pair < decided.mismatches, ¬PairAgrees gpio45 pair) ∧
      PairAgrees gpio45 decided.mismatches ∧ decided.decision = level gpio45 decided.mismatches)

/-- The pairs of both pins that do not agree are few, or one of the pins has none, or GPIO2_10 is
low. -/
def Quiet (gpio210 gpio45 : Nat → UInt8) : Prop :=
  verdict gpio210 = .low ∨ noise gpio210 = 0 ∨ noise gpio45 = 0 ∨ noise gpio210 + noise gpio45 ≤ 100

theorem setupGpioIoFast_low {gpio210 : Nat → UInt8} (gpio45 : Nat → UInt8)
    (low : verdict gpio210 = .low) {passes : Nat} (enough : 101 ≤ passes) :
    setupGpioIoFast passes gpio210 gpio45 = some ⟨1, 0, none, noise gpio210⟩ := by
  unfold setupGpioIoFast
  simp [debounce_fresh gpio210 enough, low, versionOfFirst]

theorem setupGpioIoFast_high {gpio210 gpio45 : Nat → UInt8} (high : verdict gpio210 ≠ .low)
    {passes : Nat} (enough : 101 ≤ passes) {second : Debounced}
    (decided : debounce gpio45 passes 0 (noise gpio210) = some second) :
    setupGpioIoFast passes gpio210 gpio45 =
      some ⟨versionOfSecond second.decision, 1, some second, second.cnt⟩ := by
  have version : versionOfFirst (verdict gpio210) = 2 := by
    cases known : verdict gpio210 with
    | low => exact absurd known high
    | high => rfl
    | timeout => rfl
  unfold setupGpioIoFast
  simp [debounce_fresh gpio210 enough, version, decided]

theorem versionOfSecond_ne_one (decision : Decision) : versionOfSecond decision ≠ 1 := by
  cases decision <;> decide

/-- For every stream of reads the function returns, and its two loops are independent exactly if the
pairs that do not agree are few enough for the counter they share. -/
theorem setupGpioIoFast_independent_iff (gpio210 gpio45 : Nat → UInt8) :
    ∃ setup, (∀ passes, 101 ≤ passes → setupGpioIoFast passes gpio210 gpio45 = some setup) ∧
      (Independent gpio210 gpio45 setup ↔ Quiet gpio210 gpio45) := by
  obtain ⟨most, before, here⟩ := noise_spec gpio45
  have small := (noise_spec gpio210).1
  by_cases low : verdict gpio210 = .low
  · refine ⟨_, fun passes enough => setupGpioIoFast_low gpio45 low enough, ?_⟩
    refine ⟨fun _ => Or.inl low, fun _ => ⟨iff_of_true rfl low, fun other => absurd rfl other⟩⟩
  by_cases quiet : noise gpio45 = 0 ∨ noise gpio210 + noise gpio45 ≤ 100
  · -- The second loop decides as if the counter were its own.
    refine ⟨_, fun passes enough =>
      setupGpioIoFast_high low enough (debounce_quiet gpio45 enough quiet), ?_⟩
    refine ⟨fun _ => Or.inr (Or.inr quiet), fun _ => ⟨?_, fun _ => ⟨_, rfl, rfl, ?_, ?_⟩⟩⟩
    · exact iff_of_false (versionOfSecond_ne_one _) low
    · intro timeout
      have found : noise gpio45 ≠ 101 := by omega
      simp only [verdict, if_neg found, level] at timeout
      split at timeout <;> cases timeout
    · intro _
      have found : noise gpio45 ≠ 101 := by omega
      exact ⟨before, here (by omega), by simp only [verdict, if_neg found]⟩
  · -- It times out, and too early if the first loop has counted.
    have noisy : noise gpio45 ≠ 0 := fun none => quiet (Or.inl none)
    refine ⟨_, fun passes enough =>
      setupGpioIoFast_high low enough (debounce_noisy gpio45 enough small noisy (by omega)), ?_⟩
    constructor
    · intro independent
      obtain ⟨decided, same, -, timeout, -⟩ :=
        independent.second (versionOfSecond_ne_one .timeout)
      obtain rfl := Option.some.inj same
      have late : 100 < 100 - noise gpio210 + 1 := timeout rfl
      exact Or.inr (Or.inl (by omega))
    · intro few
      have none : noise gpio210 = 0 := (few.resolve_left low).resolve_right quiet
      refine ⟨iff_of_false (versionOfSecond_ne_one .timeout) low, fun _ =>
        ⟨_, rfl, rfl, ?_, ?_⟩⟩
      · intro _
        simp only [none]
        decide
      · intro decided
        exact absurd rfl decided

/-- A read of GPIO2_10 that differs from the next one is enough. -/
def noisyGpio210 (n : Nat) : UInt8 := if n = 0 then 0 else 1

/-- A hundred pairs that differ, and then high. -/
def noisyGpio45 (n : Nat) : UInt8 := if n < 200 ∧ n % 2 = 0 then 0 else 1

/-- One pair of GPIO2_10 that does not agree takes a pair from GPIO4_5: after 100 of them the
version is forced to 3, although the next pair agrees and says 2. -/
theorem setupGpioIoFast_shared :
    setupGpioIoFast 101 noisyGpio210 noisyGpio45 = some ⟨3, 1, some ⟨.timeout, 100, 101⟩, 101⟩ ∧
      verdict noisyGpio45 = .high ∧
      ¬Independent noisyGpio210 noisyGpio45 ⟨3, 1, some ⟨.timeout, 100, 101⟩, 101⟩ := by
  refine ⟨by decide +kernel, by decide +kernel, fun independent => ?_⟩
  obtain ⟨decided, same, -, timeout, -⟩ := independent.second (by decide)
  obtain rfl := Option.some.inj same
  exact absurd (timeout rfl) (by decide)

end HrppBoot.Board
