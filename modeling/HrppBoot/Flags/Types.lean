import Mathlib.Data.UInt

/-!
# Types of environment variables

`common/env_flags.c` checks the value of a variable against its declared type. Strings are byte
lists without their NUL. Numbers are skipped digit by digit, and the check of a type looks at
what is left.
-/

namespace HrppBoot.Flags

/-- A NUL-terminated string, without the NUL. -/
abbrev CString := List UInt8

def isdigit (c : UInt8) : Bool := 0x30 ≤ c ∧ c ≤ 0x39

def isxdigit (c : UInt8) : Bool := isdigit c ∨ 0x41 ≤ c ∧ c ≤ 0x46 ∨ 0x61 ≤ c ∧ c ≤ 0x66

/-- `enum env_flags_vartype`: `env_flags_vartype_…` -/
inductive VarType where
  | string
  | decimal
  | hex
  | bool
  | ipaddr
  | macaddr
  | end_
  deriving DecidableEq, Repr

def isHexPrefix (value : CString) : Bool :=
  value.head? = some 0x30 ∧ (value[1]? = some 0x78 ∨ value[1]? = some 0x58)

/-- A digit of a number, hexadecimal if `hex`. -/
def digitOf (hex : Bool) (c : UInt8) : Bool := if hex then isxdigit c else isdigit c

/-- The loop of `skip_num`: what is left behind the digits. -/
def skipDigits (hex : Bool) (i : Int) : CString → CString
  | [] => []
  | c :: value => if i ≠ 0 ∧ digitOf hex c then skipDigits hex (i - 1) value else c :: value

/-- `skip_num`: what is left at `end`. -/
def skipNum (hex : Bool) (value : CString) (maxDigits : Int) : CString :=
  skipDigits hex maxDigits (if hex ∧ isHexPrefix value then value.drop 2 else value)

/-- The loop over the groups of an address, for those that are left. Only hexadecimal groups can be
a prefix. -/
def validateGroups (hex : Bool) (maxDigits : Int) (separator : UInt8) : Nat → CString → Int
  | 0, _ => 0
  | left + 1, cur =>
    let rest := skipNum hex cur maxDigits
    if rest.length = cur.length then -1
    else if hex ∧ rest.length + 2 = cur.length ∧ isHexPrefix cur then -1
    else if left ≠ 0 ∧ rest.head? ≠ some separator then -1
    else if left = 0 ∧ rest ≠ [] then -1
    else validateGroups hex maxDigits separator left rest.tail

/-- The characters that are a truth value. -/
def boolChars : List UInt8 := [0x31, 0x79, 0x74, 0x59, 0x54, 0x30, 0x6e, 0x66, 0x4e, 0x46]

/-- `_env_flags_validate_type` -/
def validateType (value : CString) : VarType → Int
  | .string => 0
  | .decimal => if skipNum false value (-1) ≠ [] then -1 else 0
  | .hex =>
    let rest := skipNum true value (-1)
    if rest ≠ [] then -1
    else if rest.length + 2 = value.length ∧ isHexPrefix value then -1
    else 0
  | .bool =>
    if boolChars.all fun c => value.head? ≠ some c then -1
    else if value[1]? ≠ none then -1
    else 0
  | .ipaddr => validateGroups false 3 0x2e 4 value
  | .macaddr => validateGroups true 2 0x3a 6 value
  | .end_ => -1

/-! ## Grammars -/

/-- Digits, and at least one. -/
def IsNumber (hex : Bool) (value : CString) : Prop :=
  value ≠ [] ∧ ∀ c ∈ value, digitOf hex c = true

/-- A hexadecimal prefix. -/
def IsPrefix (value : CString) : Prop := value = [0x30, 0x78] ∨ value = [0x30, 0x58]

/-- A hexadecimal number, with or without a prefix. -/
def IsHex (value : CString) : Prop :=
  IsNumber true value ∨ ∃ front digits, value = front ++ digits ∧ IsPrefix front ∧
    IsNumber true digits

/-- What decimal digits stand for. -/
def decimalValue (digits : CString) : Nat :=
  digits.foldl (fun n c => 10 * n + (c.toNat - 0x30)) 0

/-- One to three decimal digits. -/
def IsOctetText (group : CString) : Prop := IsNumber false group ∧ group.length ≤ 3

/-- A decimal number from 0 to 255. -/
def IsOctet (group : CString) : Prop := IsOctetText group ∧ decimalValue group ≤ 255

/-- One or two hexadecimal digits. -/
def IsHexPair (group : CString) : Prop := IsNumber true group ∧ group.length ≤ 2

/-- One or two hexadecimal digits behind a prefix. -/
def IsPrefixedPair (group : CString) : Prop :=
  ∃ front digits, group = front ++ digits ∧ IsPrefix front ∧ IsHexPair digits

/-- A number of groups, with separators between them. -/
def Groups (P : CString → Prop) (separator : UInt8) (n : Nat) (value : CString) : Prop :=
  ∃ groups : List CString, groups.length = n ∧ (∀ g ∈ groups, P g) ∧
    value = [separator].intercalate groups

/-- The strings of a type. -/
def Grammar (value : CString) : VarType → Prop
  | .string => True
  | .decimal => IsNumber false value
  | .hex => IsHex value
  | .bool => ∃ c ∈ boolChars, value = [c]
  | .ipaddr => Groups IsOctet 0x2e 4 value
  | .macaddr => Groups IsHexPair 0x3a 6 value
  | .end_ => False

/-! ## Skipping numbers -/

theorem skipDigits_spec (hex : Bool) (i : Int) (value : CString) :
    ∃ digits, value = digits ++ skipDigits hex i value ∧ (∀ c ∈ digits, digitOf hex c = true) ∧
      (0 ≤ i → (digits.length : Int) ≤ i) := by
  induction value generalizing i with
  | nil => exact ⟨[], rfl, by simp, by simp⟩
  | cons c value ih =>
    by_cases skips : i ≠ 0 ∧ digitOf hex c = true
    · obtain ⟨digits, split, all, bound⟩ := ih (i - 1)
      refine ⟨c :: digits, ?_, ?_, ?_⟩
      · rw [skipDigits, if_pos skips, List.cons_append, ← split]
      · simpa [skips.2] using all
      · intro positive
        have := bound (by omega)
        rw [List.length_cons]
        omega
    · refine ⟨[], ?_, by simp, by simp⟩
      rw [skipDigits, if_neg skips, List.nil_append]

theorem skipDigits_digits {hex : Bool} {i : Int} {digits rest : CString}
    (all : ∀ c ∈ digits, digitOf hex c = true) (bound : i < 0 ∨ (digits.length : Int) ≤ i)
    (stop : ∀ c ∈ rest.head?, digitOf hex c = false) :
    skipDigits hex i (digits ++ rest) = rest := by
  induction digits generalizing i with
  | nil =>
    cases rest with
    | nil => rfl
    | cons c rest => rw [List.nil_append, skipDigits, if_neg (by simp [stop c rfl])]
  | cons c digits ih =>
    rw [List.length_cons] at bound
    rw [List.cons_append, skipDigits, if_pos ⟨by omega, all c List.mem_cons_self⟩]
    exact ih (fun d member => all d (List.mem_cons_of_mem _ member)) (by omega)

theorem isHexPrefix_iff {value : CString} :
    isHexPrefix value = true ↔ ∃ front rest, value = front ++ rest ∧ IsPrefix front := by
  constructor
  · intro found
    rcases value with _ | ⟨a, _ | ⟨b, rest⟩⟩
    · simp [isHexPrefix] at found
    · simp [isHexPrefix] at found
    · obtain ⟨rfl, rfl | rfl⟩ : a = 0x30 ∧ (b = 0x78 ∨ b = 0x58) := by
        simpa [isHexPrefix] using found
      · exact ⟨_, rest, rfl, .inl rfl⟩
      · exact ⟨_, rest, rfl, .inr rfl⟩
  · rintro ⟨front, rest, rfl, rfl | rfl⟩ <;> simp [isHexPrefix]

theorem IsPrefix.length {front : CString} (prefixed : IsPrefix front) : front.length = 2 := by
  rcases prefixed with rfl | rfl <;> rfl

/-- A group, as `skip_num` skips it: digits within the limit, behind a prefix if they are
hexadecimal. -/
def IsGroup (hex : Bool) (limit : Int) (group : CString) : Prop :=
  ∃ front digits, group = front ++ digits ∧ (front = [] ∨ hex = true ∧ IsPrefix front) ∧
    IsNumber hex digits ∧ (limit < 0 ∨ (digits.length : Int) ≤ limit)

/-- What may stand behind a group: nothing that a number has. -/
def Stops (hex : Bool) (c : UInt8) : Prop := digitOf hex c = false ∧ c ≠ 0x78 ∧ c ≠ 0x58

theorem skipNum_group {hex : Bool} {limit : Int} {group rest : CString}
    (isGroup : IsGroup hex limit group) (stop : ∀ c ∈ rest.head?, Stops hex c) :
    skipNum hex (group ++ rest) limit = rest := by
  obtain ⟨front, digits, rfl, none | ⟨rfl, prefixed⟩, ⟨nonempty, all⟩, bound⟩ := isGroup
  · obtain rfl := none
    have plain : ¬(hex = true ∧ isHexPrefix (digits ++ rest) = true) := by
      rintro ⟨rfl, found⟩
      -- The second character would be one of the digits, or what is behind them.
      obtain ⟨front, more, split, prefixed⟩ := isHexPrefix_iff.mp found
      obtain ⟨x, second, isX⟩ : ∃ x : UInt8, (digits ++ rest)[1]? = some x ∧
          (x = 0x78 ∨ x = 0x58) := by
        rw [split]
        rcases prefixed with rfl | rfl
        · exact ⟨_, rfl, .inl rfl⟩
        · exact ⟨_, rfl, .inr rfl⟩
      have notDigit : digitOf true x = false := by rcases isX with rfl | rfl <;> decide
      rcases digits with _ | ⟨a, _ | ⟨b, digits⟩⟩
      · exact nonempty rfl
      · obtain ⟨_, lower, upper⟩ := stop x (by simpa [List.head?_eq_getElem?] using second)
        exact isX.elim lower upper
      · obtain rfl : b = x := by simpa using second
        rw [all b (by simp)] at notDigit
        cases notDigit
    rw [List.nil_append, skipNum, if_neg plain]
    exact skipDigits_digits all bound fun c found => (stop c found).1
  · rw [List.append_assoc, skipNum, if_pos ⟨rfl, isHexPrefix_iff.mpr ⟨_, _, rfl, prefixed⟩⟩,
      List.drop_left' prefixed.length]
    exact skipDigits_digits all bound fun c found => (stop c found).1

theorem group_of_skipNum {hex : Bool} {limit : Int} {cur : CString}
    (moved : (skipNum hex cur limit).length ≠ cur.length)
    (bare : ¬(hex = true ∧ (skipNum hex cur limit).length + 2 = cur.length ∧
      isHexPrefix cur = true)) :
    ∃ group, IsGroup hex limit group ∧ cur = group ++ skipNum hex cur limit := by
  rw [skipNum] at moved bare ⊢
  by_cases prefixed : hex = true ∧ isHexPrefix cur = true
  · rw [if_pos prefixed] at moved bare ⊢
    obtain ⟨rfl, found⟩ := prefixed
    obtain ⟨front, rest, rfl, isPrefix⟩ := isHexPrefix_iff.mp found
    rw [List.drop_left' isPrefix.length] at moved bare ⊢
    obtain ⟨digits, split, all, bound⟩ := skipDigits_spec true limit rest
    have whole := congrArg List.length split
    have size := isPrefix.length
    refine ⟨front ++ digits, ⟨front, digits, rfl, .inr ⟨rfl, isPrefix⟩, ⟨?_, all⟩, by omega⟩, ?_⟩
    · rintro rfl
      refine bare ⟨rfl, ?_, found⟩
      rw [List.length_append] at whole ⊢
      rw [List.length_nil] at whole
      omega
    · rw [List.append_assoc, ← split]
  · rw [if_neg prefixed] at moved ⊢
    obtain ⟨digits, split, all, bound⟩ := skipDigits_spec hex limit cur
    refine ⟨digits, ⟨[], digits, rfl, .inl rfl, ⟨?_, all⟩, by omega⟩, split⟩
    rintro rfl
    exact moved (congrArg List.length split).symm

theorem IsGroup.not_bare {hex : Bool} {limit : Int} {group rest : CString}
    (isGroup : IsGroup hex limit group) :
    rest.length ≠ (group ++ rest).length ∧
      ¬(hex = true ∧ rest.length + 2 = (group ++ rest).length ∧
        isHexPrefix (group ++ rest) = true) := by
  obtain ⟨front, digits, rfl, cases', ⟨nonempty, all⟩, _⟩ := isGroup
  have positive := List.length_pos_iff.mpr nonempty
  rw [List.length_append, List.length_append]
  refine ⟨by omega, ?_⟩
  rintro ⟨rfl, size, found⟩
  rcases cases' with rfl | ⟨_, prefixed⟩
  · obtain ⟨front, more, split, prefixed⟩ := isHexPrefix_iff.mp found
    rcases digits with _ | ⟨a, _ | ⟨b, _ | ⟨c, digits⟩⟩⟩
    · exact nonempty rfl
    · simp at size
      omega
    · have second := all b (by simp)
      rcases prefixed with rfl | rfl
      · obtain rfl : b = 0x78 := by simp at split; exact split.2.1
        exact absurd second (by decide)
      · obtain rfl : b = 0x58 := by simp at split; exact split.2.1
        exact absurd second (by decide)
    · simp at size
      omega
  · have := prefixed.length
    omega

/-! ## Groups -/

section Groups

variable {hex : Bool} {limit : Int} {separator : UInt8} (stops : Stops hex separator)
include stops

/-- A turn of the loop accepts a group with nothing behind the last one, and a separator behind
each other one. -/
theorem validateGroups_succ (left : Nat) (cur : CString) :
    validateGroups hex limit separator (left + 1) cur = 0 ↔
      ∃ group rest, IsGroup hex limit group ∧ cur = group ++ rest ∧
        (left = 0 ∧ rest = [] ∨ ∃ behind, left ≠ 0 ∧ rest = separator :: behind ∧
          validateGroups hex limit separator left behind = 0) := by
  constructor
  · intro accepted
    rw [validateGroups] at accepted
    split at accepted
    · cases accepted
    rename_i moved
    split at accepted
    · cases accepted
    rename_i bare
    split at accepted
    · cases accepted
    rename_i separated
    split at accepted
    · cases accepted
    rename_i ended
    obtain ⟨group, isGroup, split⟩ := group_of_skipNum moved bare
    refine ⟨group, _, isGroup, split, ?_⟩
    by_cases last : left = 0
    · exact .inl ⟨last, Decidable.byContradiction fun more => ended ⟨last, more⟩⟩
    · have head : (skipNum hex cur limit).head? = some separator :=
        Decidable.byContradiction fun other => separated ⟨last, other⟩
      exact .inr ⟨_, last, (List.cons_head?_tail head).symm, accepted⟩
  · rintro ⟨group, rest, isGroup, rfl, behind⟩
    have stop : ∀ c ∈ rest.head?, Stops hex c := by
      rcases behind with ⟨_, rfl⟩ | ⟨behind, _, rfl, _⟩
      · intro c found
        cases found
      · intro c found
        obtain rfl := Option.some.inj found
        exact stops
    obtain ⟨moved, bare⟩ := isGroup.not_bare
    rw [validateGroups, skipNum_group isGroup stop, if_neg moved, if_neg bare]
    rcases behind with ⟨rfl, rfl⟩ | ⟨behind, more, rfl, accepted⟩
    · rfl
    · rw [if_neg fun other => other.2 rfl, if_neg fun last => more last.1]
      exact accepted

/-- The loop accepts the groups with separators between them. -/
theorem validateGroups_iff (left : Nat) (cur : CString) :
    validateGroups hex limit separator (left + 1) cur = 0 ↔
      Groups (IsGroup hex limit) separator (left + 1) cur := by
  induction left generalizing cur with
  | zero =>
    rw [validateGroups_succ stops]
    constructor
    · rintro ⟨group, rest, isGroup, rfl, ⟨_, rfl⟩ | ⟨_, more, _⟩⟩
      · exact ⟨[group], rfl, by simpa using isGroup, by simp⟩
      · exact absurd rfl more
    · rintro ⟨groups, size, all, rfl⟩
      obtain ⟨group, rfl⟩ := List.length_eq_one_iff.mp size
      exact ⟨group, [], all group List.mem_cons_self, by simp, .inl ⟨rfl, rfl⟩⟩
  | succ left ih =>
    rw [validateGroups_succ stops]
    constructor
    · rintro ⟨group, rest, isGroup, rfl, ⟨none, _⟩ | ⟨behind, _, rfl, accepted⟩⟩
      · cases none
      · obtain ⟨groups, size, all, rfl⟩ := (ih behind).mp accepted
        obtain ⟨next, groups, rfl⟩ := List.exists_cons_of_length_eq_add_one size
        refine ⟨group :: next :: groups, by rw [List.length_cons, size], ?_, ?_⟩
        · simpa [isGroup] using all
        · rw [List.intercalate_cons_cons, List.append_assoc, List.singleton_append]
    · rintro ⟨groups, size, all, rfl⟩
      obtain ⟨group, groups, rfl⟩ := List.exists_cons_of_length_eq_add_one size
      obtain ⟨next, groups, rfl⟩ := List.exists_cons_of_length_eq_add_one (Nat.succ.inj size)
      refine ⟨group, _, all group List.mem_cons_self, ?_, .inr ⟨_, Nat.succ_ne_zero _, rfl,
        (ih ([separator].intercalate (next :: groups))).mpr ⟨next :: groups, ?_, ?_, rfl⟩⟩⟩
      · rw [List.intercalate_cons_cons, List.append_assoc, List.singleton_append]
      · exact Nat.succ.inj size
      · exact fun g member => all g (List.mem_cons_of_mem _ member)

end Groups

theorem Groups.congr {P Q : CString → Prop} (same : ∀ g, P g ↔ Q g) (separator : UInt8) (n : Nat)
    (value : CString) : Groups P separator n value ↔ Groups Q separator n value := by
  rw [Groups, Groups]
  simp only [same]

/-- Groups of two kinds, and at least one of the second. -/
def GroupsWith (P Q : CString → Prop) (separator : UInt8) (n : Nat) (value : CString) : Prop :=
  ∃ groups : List CString, groups.length = n ∧ (∀ g ∈ groups, P g ∨ Q g) ∧
    value = [separator].intercalate groups ∧ ∃ g ∈ groups, Q g

section Kinds

variable {P Q : CString → Prop} {separator : UInt8} {n : Nat} (positive : 0 < n)
  (apart : ∀ g, P g → ¬Q g) (free : ∀ g, P g ∨ Q g → separator ∉ g)
include positive apart free

theorem GroupsWith.not_groups {value : CString} (mixed : GroupsWith P Q separator n value) :
    ¬Groups P separator n value := by
  obtain ⟨groups, size, all, split, g, member, second⟩ := mixed
  rintro ⟨groups', size', all', split'⟩
  have some : groups ≠ [] := List.ne_nil_of_length_pos (by omega)
  have some' : groups' ≠ [] := List.ne_nil_of_length_pos (by omega)
  have equal : groups = groups' := by
    rw [← List.splitOn_intercalate separator (fun g member => free g (all g member)) some,
      ← split, split',
      List.splitOn_intercalate separator (fun g member => free g (.inl (all' g member))) some']
  rw [equal] at member
  exact apart g (all' g member) second

theorem groups_iff (value : CString) :
    (Groups (fun g => P g ∨ Q g) separator n value ↔ Groups P separator n value) ↔
      ¬GroupsWith P Q separator n value := by
  constructor
  · intro same mixed
    have first := GroupsWith.not_groups positive apart free mixed
    obtain ⟨groups, size, all, split, _⟩ := mixed
    exact first (same.mp ⟨groups, size, all, split⟩)
  · intro none
    constructor
    · rintro ⟨groups, size, all, split⟩
      refine ⟨groups, size, fun g member => ?_, split⟩
      exact (all g member).resolve_right fun second =>
        none ⟨groups, size, all, split, g, member, second⟩
    · rintro ⟨groups, size, all, split⟩
      exact ⟨groups, size, fun g member => .inl (all g member), split⟩

end Kinds

/-! ## Types -/

/-- An octet that is too large. -/
def IsLargeOctet (group : CString) : Prop := IsOctetText group ∧ 255 < decimalValue group

/-- The strings for which a type is checked otherwise than its grammar says: empty numbers,
addresses with an octet above 255, and addresses with a prefix in a group. -/
def Misjudged (value : CString) : VarType → Prop
  | .decimal | .hex => value = []
  | .ipaddr => GroupsWith IsOctet IsLargeOctet 0x2e 4 value
  | .macaddr => GroupsWith IsHexPair IsPrefixedPair 0x3a 6 value
  | .string | .bool | .end_ => False

theorem isGroup_octet (group : CString) :
    IsGroup false 3 group ↔ IsOctet group ∨ IsLargeOctet group := by
  constructor
  · rintro ⟨front, digits, rfl, rfl | ⟨none, _⟩, number, bound⟩
    · have text : IsOctetText digits := ⟨number, by omega⟩
      rcases Nat.lt_or_ge 255 (decimalValue digits) with large | small
      · exact .inr ⟨text, large⟩
      · exact .inl ⟨text, small⟩
    · cases none
  · rintro (⟨⟨number, bound⟩, _⟩ | ⟨⟨number, bound⟩, _⟩) <;>
      exact ⟨[], group, rfl, .inl rfl, number, by omega⟩

theorem isGroup_hexPair (group : CString) :
    IsGroup true 2 group ↔ IsHexPair group ∨ IsPrefixedPair group := by
  constructor
  · rintro ⟨front, digits, rfl, rfl | ⟨_, prefixed⟩, number, bound⟩
    · exact .inl ⟨number, by rw [List.nil_append]; omega⟩
    · exact .inr ⟨front, digits, rfl, prefixed, number, by omega⟩
  · rintro (⟨number, bound⟩ | ⟨front, digits, rfl, prefixed, number, bound⟩)
    · exact ⟨[], group, rfl, .inl rfl, number, by omega⟩
    · exact ⟨front, digits, rfl, .inr ⟨rfl, prefixed⟩, number, by omega⟩

theorem isGroup_hex (value : CString) : IsGroup true (-1) value ↔ IsHex value := by
  constructor
  · rintro ⟨front, digits, rfl, rfl | ⟨_, prefixed⟩, number, _⟩
    · exact .inl number
    · exact .inr ⟨front, digits, rfl, prefixed, number⟩
  · rintro (number | ⟨front, digits, rfl, prefixed, number⟩)
    · exact ⟨[], value, rfl, .inl rfl, number, .inl (by decide)⟩
    · exact ⟨front, digits, rfl, .inr ⟨rfl, prefixed⟩, number, .inl (by decide)⟩

theorem not_mem_group {hex : Bool} {limit : Int} {separator : UInt8}
    (stops : Stops hex separator) (zero : separator ≠ 0x30) {group : CString}
    (isGroup : IsGroup hex limit group) : separator ∉ group := by
  obtain ⟨front, digits, rfl, cases', ⟨_, all⟩, _⟩ := isGroup
  intro member
  rcases List.mem_append.mp member with member | member
  · rcases cases' with rfl | ⟨_, rfl | rfl⟩
    · cases member
    · simp [zero, stops.2.1] at member
    · simp [zero, stops.2.2] at member
  · have digit := all separator member
    rw [stops.1] at digit
    cases digit

theorem validateType_decimal (value : CString) :
    validateType value .decimal = 0 ↔ ∀ c ∈ value, digitOf false c = true := by
  have loop : skipNum false value (-1) = skipDigits false (-1) value := by
    rw [skipNum, if_neg fun hex => Bool.false_ne_true hex.1]
  rw [validateType, loop]
  constructor
  · intro accepted
    obtain ⟨digits, split, all, _⟩ := skipDigits_spec false (-1) value
    have ended : skipDigits false (-1) value = [] := by
      by_contra more
      rw [if_pos more] at accepted
      cases accepted
    rw [ended, List.append_nil] at split
    rwa [split]
  · intro all
    have ended := @skipDigits_digits false (-1) value [] all (.inl (by decide))
      fun c none => by cases none
    rw [List.append_nil] at ended
    rw [ended]
    rfl

theorem validateType_hex (value : CString) :
    validateType value .hex = 0 ↔ value = [] ∨ IsHex value := by
  rw [← isGroup_hex, validateType]
  constructor
  · intro accepted
    split at accepted
    · cases accepted
    rename_i ended
    have ended : skipNum true value (-1) = [] := Decidable.byContradiction ended
    split at accepted
    · cases accepted
    rename_i bare
    by_cases empty : value = []
    · exact .inl empty
    · have moved : (skipNum true value (-1)).length ≠ value.length := by
        rw [ended]
        exact fun none => empty (List.length_eq_zero_iff.mp none.symm)
      obtain ⟨group, isGroup, split⟩ := group_of_skipNum moved fun other => bare other.2
      rw [ended, List.append_nil] at split
      exact .inr (split ▸ isGroup)
  · rintro (rfl | isGroup)
    · decide
    · have ended := @skipNum_group true (-1) value [] isGroup fun c none => by cases none
      obtain ⟨_, bare⟩ := @IsGroup.not_bare true (-1) value [] isGroup
      rw [List.append_nil] at ended bare
      rw [ended, if_neg fun some => some rfl, if_neg fun other => bare ⟨rfl, other⟩]

theorem validateType_bool (value : CString) :
    validateType value .bool = 0 ↔ ∃ c ∈ boolChars, value = [c] := by
  rw [validateType]
  constructor
  · intro accepted
    split at accepted
    · cases accepted
    rename_i first
    split at accepted
    · cases accepted
    rename_i single
    obtain ⟨c, member, head⟩ : ∃ c ∈ boolChars, value.head? = some c := by
      by_contra none
      refine first (List.all_eq_true.mpr fun c member => decide_eq_true fun head => ?_)
      exact none ⟨c, member, head⟩
    refine ⟨c, member, ?_⟩
    rcases value with _ | ⟨a, _ | ⟨b, value⟩⟩
    · cases head
    · exact congrArg (fun a => [a]) (Option.some.inj head)
    · exact absurd (by simp) single
  · rintro ⟨c, member, rfl⟩
    have first : ¬(boolChars.all fun d => [c].head? ≠ some d) = true := by
      intro other
      simpa using List.all_eq_true.mp other c member
    rw [if_neg first]
    rfl

theorem dot_not_mem (group : CString) (isGroup : IsOctet group ∨ IsLargeOctet group) :
    0x2e ∉ group :=
  @not_mem_group false 3 0x2e ⟨by decide, by decide, by decide⟩ (by decide) group
    ((isGroup_octet group).mpr isGroup)

theorem IsOctet.not_large (group : CString) (octet : IsOctet group) : ¬IsLargeOctet group :=
  fun large => Nat.not_lt_of_ge octet.2 large.2

theorem colon_not_mem (group : CString) (isGroup : IsHexPair group ∨ IsPrefixedPair group) :
    0x3a ∉ group :=
  @not_mem_group true 2 0x3a ⟨by decide, by decide, by decide⟩ (by decide) group
    ((isGroup_hexPair group).mpr isGroup)

theorem IsHexPair.not_prefixed (group : CString) (pair : IsHexPair group) :
    ¬IsPrefixedPair group := by
  rintro ⟨front, digits, rfl, rfl | rfl, _⟩
  · exact absurd (pair.1.2 0x78 (by simp)) (by decide)
  · exact absurd (pair.1.2 0x58 (by simp)) (by decide)

/-- A value is accepted exactly if it is of its type's grammar, except for the misjudged ones. -/
theorem validateType_grammar (value : CString) (type : VarType) :
    (validateType value type = 0 ↔ Grammar value type) ↔ ¬Misjudged value type := by
  cases type with
  | string => simp [validateType, Grammar, Misjudged]
  | decimal =>
    rw [validateType_decimal, Grammar, IsNumber, Misjudged]
    by_cases empty : value = []
    · simp [empty]
    · simp [empty]
  | hex =>
    rw [validateType_hex, Grammar, Misjudged]
    by_cases empty : value = []
    · subst empty
      have none : ¬IsHex [] := by
        rw [← isGroup_hex]
        exact fun isGroup => (@IsGroup.not_bare true (-1) [] [] isGroup).1 rfl
      simp [none]
    · simp [empty]
  | bool => simp [validateType_bool, Grammar, Misjudged]
  | ipaddr =>
    have stops : Stops false 0x2e := ⟨by decide, by decide, by decide⟩
    rw [validateType, validateGroups_iff stops, Groups.congr isGroup_octet, Grammar, Misjudged]
    exact groups_iff (by decide) IsOctet.not_large dot_not_mem value
  | macaddr =>
    have stops : Stops true 0x3a := ⟨by decide, by decide, by decide⟩
    rw [validateType, validateGroups_iff stops, Groups.congr isGroup_hexPair, Grammar, Misjudged]
    exact groups_iff (by decide) IsHexPair.not_prefixed colon_not_mem value
  | end_ => simp [validateType, Grammar, Misjudged]

/-- An empty string is accepted as a decimal and as a hexadecimal number, `999.0.0.0` as an IP
address, and `0x1:0:0:0:0:0` as a MAC address. -/
theorem validateType_misjudges :
    (validateType [] .decimal = 0 ∧ ¬Grammar [] .decimal) ∧
      (validateType [] .hex = 0 ∧ ¬Grammar [] .hex) ∧
      (validateType [0x39, 0x39, 0x39, 0x2e, 0x30, 0x2e, 0x30, 0x2e, 0x30] .ipaddr = 0 ∧
        ¬Grammar [0x39, 0x39, 0x39, 0x2e, 0x30, 0x2e, 0x30, 0x2e, 0x30] .ipaddr) ∧
      validateType [0x30, 0x78, 0x31, 0x3a, 0x30, 0x3a, 0x30, 0x3a, 0x30, 0x3a, 0x30, 0x3a, 0x30]
          .macaddr = 0 ∧
        ¬Grammar [0x30, 0x78, 0x31, 0x3a, 0x30, 0x3a, 0x30, 0x3a, 0x30, 0x3a, 0x30, 0x3a, 0x30]
          .macaddr := by
  have digits : IsNumber true [0x30] ∧ IsNumber true [0x31] ∧ IsNumber false [0x30] ∧
      IsNumber false [0x39, 0x39, 0x39] := by
    simp [IsNumber, digitOf, isxdigit, isdigit]
  obtain ⟨zero, one, decimal, large⟩ := digits
  refine ⟨⟨by decide, fun number => number.1 rfl⟩, ⟨by decide, ?_⟩, ⟨by decide, ?_⟩, by decide, ?_⟩
  · rintro (number | ⟨front, digits, split, prefixed, _⟩)
    · exact number.1 rfl
    · rw [List.nil_eq_append_iff.mp split |>.1] at prefixed
      cases prefixed.length
  · have octet : IsOctet [0x30] := ⟨⟨decimal, by decide⟩, by decide⟩
    have large : IsLargeOctet [0x39, 0x39, 0x39] := ⟨⟨large, by decide⟩, by decide⟩
    refine GroupsWith.not_groups (by decide) IsOctet.not_large dot_not_mem
      ⟨[[0x39, 0x39, 0x39], [0x30], [0x30], [0x30]], rfl, ?_, rfl, _, by simp, large⟩
    simp [large, octet]
  · have pair : IsHexPair [0x30] := ⟨zero, by decide⟩
    have prefixed : IsPrefixedPair [0x30, 0x78, 0x31] :=
      ⟨[0x30, 0x78], [0x31], rfl, .inl rfl, one, by decide⟩
    refine GroupsWith.not_groups (by decide) IsHexPair.not_prefixed colon_not_mem
      ⟨[[0x30, 0x78, 0x31], [0x30], [0x30], [0x30], [0x30], [0x30]], rfl, ?_, rfl, _, by simp,
        prefixed⟩
    simp [pair, prefixed]

end HrppBoot.Flags
