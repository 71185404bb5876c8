import HrppBoot.Parts.Mtdparts

/-!
# Sizes as text

What `memsize_format` writes, `memsize_parse` reads back, when the character behind it is one that
can follow a size in the list of partitions. A suffix stands for a power of 1024 that divides the
size, so nothing is lost by it.
-/

namespace HrppBoot.Parts

/-! ## Digits -/

theorem le_ofDigitChars (digits : Text) (init : Nat) : init ≤ Nat.ofDigitChars 10 digits init := by
  induction digits generalizing init with
  | nil => simp
  | cons c digits ih =>
    rw [Nat.ofDigitChars_cons]
    exact Nat.le_trans (by omega) (ih _)

variable {c : Char} {rest : Text} {n size : Nat}

theorem digit_value (digit : c.isDigit = true) :
    isxdigit c = true ∧ digitValue c = c.toNat - '0'.toNat ∧ digitValue c < 10 := by
  refine ⟨by simp [isxdigit, digit], by simp [digitValue, digit], ?_⟩
  simp only [digitValue, digit, if_true]
  simp only [Char.isDigit, Bool.and_eq_true, decide_eq_true_eq] at digit
  have upper : c.toNat ≤ 57 := UInt32.le_iff_toNat_le.mp digit.2
  have zero : '0'.toNat = 48 := rfl
  omega

theorem ten_le_digitValue (digit : c.isDigit = false) :
    10 ≤ digitValue c := by
  simp only [digitValue, digit, Bool.false_eq_true, if_false]
  split <;> exact Nat.le_add_left ..

theorem strtoullDigits_stop {base : Nat} (decimal : base ≤ 10) (result : Nat)
    (stop : ∀ c ∈ rest.head?, c.isDigit = false) :
    strtoullDigits base result rest = (result, rest) := by
  cases rest with
  | nil => rfl
  | cons c rest =>
    rw [strtoullDigits, if_neg]
    rintro ⟨_, small⟩
    have large := ten_le_digitValue (stop c rfl)
    omega

theorem strtoullDigits_digits {digits : Text} {init : Nat}
    (decimal : ∀ c ∈ digits, c.isDigit = true) (fits : Nat.ofDigitChars 10 digits init < 2 ^ 64)
    (stop : ∀ c ∈ rest.head?, c.isDigit = false) :
    strtoullDigits 10 init (digits ++ rest) = (Nat.ofDigitChars 10 digits init, rest) := by
  induction digits generalizing init with
  | nil => simpa using strtoullDigits_stop (Nat.le_refl 10) init stop
  | cons c digits ih =>
    obtain ⟨hex, value, small⟩ := digit_value (decimal c List.mem_cons_self)
    rw [Nat.ofDigitChars_cons] at fits ⊢
    have below := le_ofDigitChars digits (10 * init + (c.toNat - '0'.toNat))
    rw [List.cons_append, strtoullDigits, if_pos ⟨hex, small⟩, value, Nat.mod_eq_of_lt (by omega),
      Nat.mul_comm init 10]
    exact ih (fun c member => decimal c (List.mem_cons_of_mem _ member)) fits

theorem digitChar_ne_zero (positive : 0 < n) (small : n < 10) :
    n.digitChar ≠ '0' := by
  have digits : ∀ k : Fin 10, 0 < k.val → k.val.digitChar ≠ '0' := by decide
  exact digits ⟨n, small⟩ positive

theorem toDigits_ne_zero_cons (positive : 0 < n) (digits : Text) :
    Nat.toDigits 10 n ≠ '0' :: digits := by
  induction n using Nat.strongRecOn generalizing digits with
  | _ n ih =>
    intro zero
    rcases Nat.lt_or_ge n 10 with small | large
    · rw [Nat.toDigits_of_lt_base small] at zero
      exact absurd (List.cons.inj zero).1 (digitChar_ne_zero positive small)
    · rw [Nat.toDigits_of_base_le (by decide) large] at zero
      cases front : Nat.toDigits 10 (n / 10) with
      | nil => exact absurd front Nat.toDigits_ne_nil
      | cons c cs =>
        rw [front, List.cons_append] at zero
        exact ih (n / 10) (by omega) (by omega) cs (front.trans (by rw [(List.cons.inj zero).1]))

/-- A character behind a number: no decimal digit, and not the `x` of a hexadecimal number. -/
def NumberEnd (rest : Text) : Prop := ∀ c ∈ rest.head?, c.isDigit = false ∧ c ≠ 'x'

/-- A number is read back. -/
theorem simpleStrtoull_toDigits (fits : n < 2 ^ 64) (ends : NumberEnd rest)
    : simpleStrtoull (Nat.toDigits 10 n ++ rest) = (n, rest) := by
  have stop : ∀ c ∈ rest.head?, c.isDigit = false := fun c member => (ends c member).1
  rcases Nat.eq_zero_or_pos n with rfl | positive
  · show simpleStrtoull ('0' :: rest) = (0, rest)
    unfold simpleStrtoull
    split
    next c cp same =>
      rw [List.cons.injEq] at same
      exact absurd rfl (ends 'x' (by simp [same.2])).2
    next cp _ same =>
      rw [← (List.cons.inj same).2]
      exact strtoullDigits_stop (by decide) 0 stop
    next _ other => exact absurd rfl (other rest)
  · have decimal : ∀ c ∈ Nat.toDigits 10 n, c.isDigit = true :=
      fun c member => Nat.isDigit_of_mem_toDigits (by decide) (by decide) member
    have whole : simpleStrtoull (Nat.toDigits 10 n ++ rest) =
        strtoullDigits 10 0 (Nat.toDigits 10 n ++ rest) := by
      cases digits : Nat.toDigits 10 n with
      | nil => exact absurd digits Nat.toDigits_ne_nil
      | cons c cs =>
        have leading : c ≠ '0' := by
          rintro rfl
          exact toDigits_ne_zero_cons positive cs digits
        unfold simpleStrtoull
        split
        next same => exact absurd (List.cons.inj same).1 leading
        next same => exact absurd (List.cons.inj same).1 leading
        next => rfl
    rw [whole, strtoullDigits_digits decimal (by rwa [Nat.ofDigitChars_ten_toDigits]) stop,
      Nat.ofDigitChars_ten_toDigits]

/-! ## Suffixes -/

/-- A text that is empty or starts with one of some characters. -/
def StartsIn (allowed : List Char) (rest : Text) : Prop := ∀ c ∈ rest.head?, c ∈ allowed

/-- The characters that can follow a size. -/
abbrev SizeEnd : Text → Prop := StartsIn ['@', '(', 'r', ',', ';']

theorem sizeEnd_char (listed : c ∈ ['@', '(', 'r', ',', ';']) :
    (c.isDigit = false ∧ c ≠ 'x') ∧ c ∉ ['G', 'g', 'M', 'm', 'K', 'k'] := by
  have checked : ['@', '(', 'r', ',', ';'].all
      (fun c => (!c.isDigit && c != 'x') && !(['G', 'g', 'M', 'm', 'K', 'k'].contains c)) = true :=
    by decide
  simpa using List.all_eq_true.mp checked c listed

theorem SizeEnd.numberEnd (ends : SizeEnd rest) : NumberEnd rest :=
  fun c head => (sizeEnd_char (ends c head)).1

theorem memsizeParse_plain {ptr : Text} {ret : Nat} (number : simpleStrtoull ptr = (ret, rest))
    (plain : ∀ c ∈ rest.head?, c ∉ ['G', 'g', 'M', 'm', 'K', 'k']) :
    memsizeParse ptr = (ret, rest) := by
  rw [memsizeParse, number]
  cases rest with
  | nil => rfl
  | cons c rest =>
    have other := plain c rfl
    dsimp only
    split
    all_goals first
      | rfl
      | exact absurd (by simp_all) other

theorem scaled_back {unit : Nat} (fits : size < 2 ^ 64) (multiple : size % unit = 0) :
    size / unit * unit % 2 ^ 64 = size := by
  rw [Nat.div_mul_cancel (Nat.dvd_of_mod_eq_zero multiple), Nat.mod_eq_of_lt fits]

theorem simpleStrtoull_suffix (fits : size < 2 ^ 64) (unit : Nat) (suffix : c ∈ ['g', 'm', 'k'])
    (rest : Text) :
    simpleStrtoull (Nat.toDigits 10 (size / unit) ++ [c] ++ rest) = (size / unit, c :: rest) := by
  have checked : ['g', 'm', 'k'].all (fun c => !c.isDigit && c != 'x') = true := by decide
  have ends : c.isDigit = false ∧ c ≠ 'x' := by
    simpa using List.all_eq_true.mp checked c suffix
  rw [List.append_assoc]
  refine simpleStrtoull_toDigits (Nat.lt_of_le_of_lt (Nat.div_le_self _ _) fits) ?_
  intro d head
  obtain rfl : c = d := by simpa using head
  exact ends

theorem memsizeParse_format (fits : size < 2 ^ 64) (ends : SizeEnd rest)
    : memsizeParse (memsizeFormat size ++ rest) = (size, rest) := by
  rw [memsizeFormat]
  split
  next giga =>
    rw [memsizeParse, simpleStrtoull_suffix fits _ (by decide)]
    show (size / 2 ^ 30 * 2 ^ 30 % 2 ^ 64, rest) = (size, rest)
    rw [scaled_back fits giga]
  split
  next mega =>
    rw [memsizeParse, simpleStrtoull_suffix fits _ (by decide)]
    show (size / 2 ^ 20 * 2 ^ 20 % 2 ^ 64, rest) = (size, rest)
    rw [scaled_back fits mega]
  split
  next kilo =>
    rw [memsizeParse, simpleStrtoull_suffix fits _ (by decide)]
    show (size / 2 ^ 10 * 2 ^ 10 % 2 ^ 64, rest) = (size, rest)
    rw [scaled_back fits kilo]
  next =>
    exact memsizeParse_plain (simpleStrtoull_toDigits fits ends.numberEnd)
      fun c head => (sizeEnd_char (ends c head)).2

theorem memsizeFormat_head (size : Nat) :
    ∃ c rest, memsizeFormat size = c :: rest ∧ c.isDigit = true := by
  have quotient : ∀ n suffix, ∃ c rest, Nat.toDigits 10 n ++ suffix = c :: rest ∧
      c.isDigit = true := by
    intro n suffix
    cases digits : Nat.toDigits 10 n with
    | nil => exact absurd digits Nat.toDigits_ne_nil
    | cons c cs =>
      refine ⟨c, cs ++ suffix, rfl, ?_⟩
      have member : c ∈ Nat.toDigits 10 n := digits ▸ List.mem_cons_self
      exact Nat.isDigit_of_mem_toDigits (by decide) (by decide) member
  rw [memsizeFormat]
  split
  · exact quotient _ _
  split
  · exact quotient _ _
  split
  · exact quotient _ _
  · simpa using quotient size []

/-! ## The range -/

theorem strtoullDigits_lt (base : Nat) {result : Nat} (fits : result < 2 ^ 64) (cp : Text) :
    (strtoullDigits base result cp).1 < 2 ^ 64 := by
  induction cp generalizing result with
  | nil => exact fits
  | cons c cp ih =>
    rw [strtoullDigits]
    split
    · exact ih (Nat.mod_lt _ (by decide))
    · exact fits

theorem simpleStrtoull_lt (ptr : Text) : (simpleStrtoull ptr).1 < 2 ^ 64 := by
  unfold simpleStrtoull
  split
  · split <;> exact strtoullDigits_lt _ (by decide) _
  · exact strtoullDigits_lt _ (by decide) _
  · exact strtoullDigits_lt _ (by decide) _

theorem memsizeParse_lt (ptr : Text) : (memsizeParse ptr).1 < 2 ^ 64 := by
  rw [memsizeParse]
  cases number : simpleStrtoull ptr with
  | mk ret retptr =>
    have fits : ret < 2 ^ 64 := by simpa [number] using simpleStrtoull_lt ptr
    dsimp only
    split
    all_goals first
      | exact fits
      | exact Nat.mod_lt _ (by decide)

end HrppBoot.Parts
