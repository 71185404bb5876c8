import HrppBoot.Flags.Attr
import HrppBoot.Lib.Separated

/-!
# Hardware options

`common/hwconfig.c`: an option string holds items between `;`, each an option or an option with an
argument behind `:`, and an argument may hold sub-options between `,`. Strings are without their
zero byte, and pointers are offsets.
-/

namespace HrppBoot.Env.Hwconfig

open Flags Separated

/-! ## The parser -/

/-- What separates items, and what separates an item from its argument. -/
structure Syntax where
  stopchs : List UInt8
  eqch : UInt8

/-- The options of a string: `";"` and `':'`. -/
def optionSyntax : Syntax where
  stopchs := [0x3b]
  eqch := 0x3a

/-- The sub-options of an argument: `",;"` and `'='`. -/
def suboptionSyntax : Syntax where
  stopchs := [0x2c, 0x3b]
  eqch := 0x3d

variable (syn : Syntax)

/-- One of `stopchs`. -/
def Syntax.isStop (c : UInt8) : Bool := syn.stopchs.contains c

/-- The first of `stopchs` in a string, as `strpbrk` finds it. -/
def strpbrk (s : List UInt8) : Option Nat := s.findIdx? syn.isStop

/-- The option at `str` stands behind one of `stopchs`, or where the search began. -/
def leftEdge (whole : List UInt8) (opts str : Nat) : Bool :=
  str = opts || strpbrk syn (whole.drop (str - 1)) = some 0

/-- The option that ends at `e` ends at one of `stopchs`, at `eqch` or at the end. -/
def rightEdge (whole : List UInt8) (e : Nat) : Bool :=
  strpbrk syn (whole.drop e) = some 0 || whole[e]? = some syn.eqch || whole[e]? = none

/-- The length of the argument of an option that is at `str` and ends at `e`. -/
def arglen (whole : List UInt8) (maxlen optlen str e : Nat) : Nat :=
  match strpbrk syn (whole.drop str) with
  | none => min maxlen (whole.length - str) - optlen - 1
  | some k => str + k - e - 1

/-- What is returned for an option at `str`, a pointer and the length of an argument. -/
def matched (whole : List UInt8) (maxlen : Nat) (opt : List UInt8) (wantArg : Bool) (str : Nat) :
    Option (Nat × Nat) :=
  let e := str + opt.length
  if wantArg = false then some (str, 0)
  else if whole[e]? ≠ some syn.eqch then none
  else some (e + 1, arglen syn whole maxlen opt.length str e)

/-- `hwconfig_parse` from the label `next` on, within `fuel` turns. Where `strstr` finds nothing the
result is NULL either way. -/
def parseLoop (whole : List UInt8) (maxlen : Nat) (opt : List UInt8) (wantArg : Bool) :
    (fuel opts : Nat) → Option (Option (Nat × Nat))
  | 0, _ => none
  | fuel + 1, opts =>
    match strstr (whole.drop opts) opt with
    | none => some none
    | some k =>
      let str := opts + k
      let e := str + opt.length
      if e > maxlen then some none
      else if leftEdge syn whole opts str && rightEdge syn whole e then
        some (matched syn whole maxlen opt wantArg str)
      else parseLoop whole maxlen opt wantArg fuel e

/-- `hwconfig_parse`: the string from the pointer on, and the length of an argument. -/
def hwconfigParse (whole : List UInt8) (maxlen : Nat) (opt : List UInt8) (wantArg : Bool) :
    Option (Option (List UInt8 × Nat)) :=
  (parseLoop syn whole maxlen opt wantArg (whole.length + 1) 0).map fun found =>
    found.map fun place => (whole.drop place.1, place.2)

def cpuHwconfig : List UInt8 := []

def boardHwconfig : List UInt8 := []

/-- The first of several strings in which an option is found. -/
def firstFound (opt : List UInt8) (wantArg : Bool) :
    List (List UInt8) → Option (Option (List UInt8 × Nat))
  | [] => some none
  | whole :: rest =>
    match hwconfigParse optionSyntax whole whole.length opt wantArg with
    | none => none
    | some (some found) => some (some found)
    | some none => firstFound opt wantArg rest

/-- `__hwconfig` with a buffer. -/
def hwconfig (opt : List UInt8) (wantArg : Bool) (envHwconfig : List UInt8) :
    Option (Option (List UInt8 × Nat)) :=
  firstFound opt wantArg [envHwconfig, boardHwconfig, cpuHwconfig]

def hwconfigF (opt buf : List UInt8) : Option Bool := (hwconfig opt false buf).map Option.isSome

def hwconfigArgF (opt buf : List UInt8) : Option (Option (List UInt8 × Nat)) :=
  hwconfig opt true buf

/-- A search for a sub-option in the argument of an option. -/
def hwconfigSub (opt subopt : List UInt8) (wantArg : Bool) (buf : List UInt8) :
    Option (Option (List UInt8 × Nat)) :=
  match hwconfig opt true buf with
  | none => none
  | some none => some none
  | some (some arg) => hwconfigParse suboptionSyntax arg.1 arg.2 subopt wantArg

def hwconfigSubF (opt subopt buf : List UInt8) : Option Bool :=
  (hwconfigSub opt subopt false buf).map Option.isSome

def hwconfigSubargF (opt subopt buf : List UInt8) : Option (Option (List UInt8 × Nat)) :=
  hwconfigSub opt subopt true buf

/-! ## The search -/

section Search

variable {syn} {whole opt : List UInt8} {maxlen : Nat} {wantArg : Bool}

theorem strpbrk_zero (s : List UInt8) :
    decide (strpbrk syn s = some 0) = s.head?.any syn.isStop := by
  unfold strpbrk
  cases s with
  | nil => rfl
  | cons c s =>
    rw [List.findIdx?_cons, List.head?_cons, Option.any_some]
    by_cases stops : syn.isStop c <;> simp [stops]

theorem rightEdge_eq (e : Nat) :
    rightEdge syn whole e = nameEnds syn.isStop syn.eqch whole e := by
  rw [rightEdge, nameEnds, strpbrk_zero, List.head?_drop]
  cases whole[e]? with
  | none => simp
  | some c => simp [Bool.beq_eq_decide_eq]

theorem leftEdge_eq {opts str : Nat} (le : opts ≤ str) :
    leftEdge syn whole opts str = (decide (str = opts) || begins syn.isStop whole str) := by
  rw [leftEdge, strpbrk_zero, List.head?_drop]
  cases str with
  | zero =>
    obtain rfl : opts = 0 := Nat.le_zero.mp le
    rfl
  | succ str => rfl

/-- The first item that is the option, or the option with an argument. -/
def found (syn : Syntax) (whole opt : List UInt8) : Option Nat :=
  firstPlace syn.isStop whole (named syn.eqch opt)

/-- The option stands twice in a row, and ends there, in front of the first item that is the
option. -/
def Doubled (syn : Syntax) (whole opt : List UInt8) (maxlen : Nat) : Prop :=
  ∃ p, p + 2 * opt.length ≤ maxlen ∧ opt ++ opt <+: whole.drop p ∧
    nameEnds syn.isStop syn.eqch whole (p + 2 * opt.length) = true ∧
    ∀ q ≤ p, begins syn.isStop whole q = true →
      named syn.eqch opt (itemAt syn.isStop whole q) = false

/-- The result for the first item that is the option, if the option ends in front of `maxlen`. -/
def expected (syn : Syntax) (whole : List UInt8) (maxlen : Nat) (opt : List UInt8)
    (wantArg : Bool) : Option (Nat × Nat) :=
  (found syn whole opt).bind fun p =>
    if p + opt.length > maxlen then none else matched syn whole maxlen opt wantArg p

theorem prefix_twice {p : Nat} (first : opt <+: whole.drop p)
    (second : opt <+: whole.drop (p + opt.length)) : opt ++ opt <+: whole.drop p := by
  obtain ⟨rest, parts⟩ := first
  have behind : whole.drop (p + opt.length) = rest := by
    rw [← List.drop_drop, ← parts, List.drop_left]
  rw [behind] at second
  rw [← parts]
  exact List.prefix_append_right_inj opt |>.mpr second

theorem begins_inside (plain : ∀ c ∈ opt, syn.isStop c = false) {str p : Nat}
    (occurs : opt <+: whole.drop str) (behind : str < p) (inside : p ≤ str + opt.length) :
    begins syn.isStop whole p = false := by
  obtain ⟨q, rfl⟩ : ∃ q, p = q + 1 := ⟨p - 1, by omega⟩
  obtain ⟨rest, parts⟩ := occurs
  have less : q - str < opt.length := by omega
  have here : whole[q]? = some opt[q - str] := by
    have there : (whole.drop str)[q - str]? = some opt[q - str] := by
      rw [← parts, List.getElem?_append_left less, List.getElem?_eq_getElem less]
    rwa [List.getElem?_drop, show str + (q - str) = q by omega] at there
  rw [begins, here, Option.any_some]
  exact plain _ (List.getElem_mem less)

/-- The string is searched up to a place: it is the start, or an occurrence of the option ends
there, and no item in front of it is the option. -/
structure Searched (syn : Syntax) (whole opt : List UInt8) (opts : Nat) : Prop where
  inside : opts ≤ whole.length
  began : opts = 0 ∨ opt.length ≤ opts ∧ opt <+: whole.drop (opts - opt.length)
  before : ∀ p < opts, begins syn.isStop whole p = true →
    named syn.eqch opt (itemAt syn.isStop whole p) = false

namespace Searched

theorem start : Searched syn whole opt 0 where
  inside := Nat.zero_le _
  began := .inl rfl
  before p less := absurd less (Nat.not_lt_zero p)

variable {opts : Nat} (searched : Searched syn whole opt opts)
include searched

variable {k : Nat}

theorem occurs (isNext : strstr (whole.drop opts) opt = some k) :
    opt <+: whole.drop (opts + k) ∧ opts + k + opt.length ≤ whole.length ∧
      ∀ p, opts ≤ p → p < opts + k → ¬opt <+: whole.drop p := by
  obtain ⟨there, first⟩ := strstr_some isNext
  rw [List.drop_drop] at there
  have fits := there.length_le
  have within := searched.inside
  rw [List.length_drop] at fits
  refine ⟨there, ?_, fun p behind less => ?_⟩
  · rcases Nat.lt_or_ge whole.length (opts + k) with outside | inside
    · exfalso
      have absent := first (whole.length - opts) (by omega)
      rw [List.drop_drop, show opts + (whole.length - opts) = whole.length by omega,
        List.drop_length] at absent
      rw [List.drop_eq_nil_of_le (Nat.le_of_lt outside)] at there
      exact absent there
    · omega
  · have absent := first (p - opts) (by omega)
    rwa [List.drop_drop, show opts + (p - opts) = p by omega] at absent

variable (plain : ∀ c ∈ opt, syn.isStop c = false)
include plain

theorem found_behind {p : Nat} (isFound : found syn whole opt = some p) :
    opts ≤ p ∧ p ≤ whole.length ∧ opt <+: whole.drop p := by
  obtain ⟨within, begun, isNamed, -⟩ := firstPlace_eq_some.mp isFound
  refine ⟨?_, within, ((named_itemAt plain p).mp isNamed).1⟩
  by_contra less
  rw [searched.before p (Nat.not_le.mp less) begun] at isNamed
  cases isNamed

theorem found_none (noNext : strstr (whole.drop opts) opt = none) :
    found syn whole opt = none := by
  cases isFound : found syn whole opt with
  | none => rfl
  | some p =>
    obtain ⟨behind, within, there⟩ := searched.found_behind plain isFound
    have absent := strstr_none noNext (p - opts) (by rw [List.length_drop]; omega)
    rw [List.drop_drop, show opts + (p - opts) = p by omega] at absent
    exact absurd there absent

theorem found_late {p : Nat} (isNext : strstr (whole.drop opts) opt = some k)
    (isFound : found syn whole opt = some p) : opts + k ≤ p := by
  obtain ⟨behind, -, there⟩ := searched.found_behind plain isFound
  obtain ⟨-, -, early⟩ := searched.occurs isNext
  by_contra less
  exact early p behind (Nat.not_le.mp less) there

theorem found_here (nonempty : opt ≠ []) (single : ¬Doubled syn whole opt maxlen)
    (isNext : strstr (whole.drop opts) opt = some k) (near : opts + k + opt.length ≤ maxlen)
    (left : leftEdge syn whole opts (opts + k) = true)
    (right : rightEdge syn whole (opts + k + opt.length) = true) :
    found syn whole opt = some (opts + k) := by
  obtain ⟨there, fits, early⟩ := searched.occurs isNext
  rw [leftEdge_eq (Nat.le_add_right opts k), Bool.or_eq_true, decide_eq_true_eq] at left
  rw [rightEdge_eq] at right
  have positive : 0 < opt.length := List.length_pos_iff.mpr nonempty
  have begun : begins syn.isStop whole (opts + k) = true := by
    rcases left with here | begun
    · obtain rfl : k = 0 := by omega
      rcases searched.began with rfl | ⟨le, previous⟩
      · rfl
      · exfalso
        refine single ⟨opts - opt.length, by omega, prefix_twice previous ?_, ?_, ?_⟩
        · rwa [Nat.sub_add_cancel le]
        · rwa [show opts - opt.length + 2 * opt.length = opts + 0 + opt.length by omega]
        · exact fun q less => searched.before q (by omega)
    · exact begun
  refine firstPlace_eq_some.mpr ⟨by omega, begun, (named_itemAt plain _).mpr ⟨there, right⟩, ?_⟩
  intro q less begunThere
  rcases Nat.lt_or_ge q opts with front | behind
  · exact searched.before q front begunThere
  · rw [Bool.eq_false_iff]
    exact fun isNamed => early q behind less ((named_itemAt plain q).mp isNamed).1

theorem next {k : Nat} (isNext : strstr (whole.drop opts) opt = some k)
    (edges : ¬(leftEdge syn whole opts (opts + k) &&
      rightEdge syn whole (opts + k + opt.length)) = true) :
    Searched syn whole opt (opts + k + opt.length) := by
  obtain ⟨there, fits, early⟩ := searched.occurs isNext
  refine ⟨fits, .inr ⟨by omega, by simpa using there⟩, ?_⟩
  intro p less begun
  rw [Bool.eq_false_iff]
  intro isNamed
  obtain ⟨isThere, ends⟩ := (named_itemAt plain p).mp isNamed
  rcases Nat.lt_trichotomy p (opts + k) with front | rfl | inside
  · rcases Nat.lt_or_ge p opts with earlier | behind
    · rw [searched.before p earlier begun] at isNamed
      cases isNamed
    · exact early p behind front isThere
  · apply edges
    rw [leftEdge_eq (Nat.le_add_right opts k), rightEdge_eq, begun, ends, Bool.or_true]
    rfl
  · rw [begins_inside plain there inside (Nat.le_of_lt less)] at begun
    cases begun

end Searched

/-- The loop finds the first item that is the option. -/
theorem parseLoop_eq (nonempty : opt ≠ []) (plain : ∀ c ∈ opt, syn.isStop c = false)
    (single : ¬Doubled syn whole opt maxlen) {fuel opts : Nat}
    (searched : Searched syn whole opt opts) (enough : whole.length - opts < fuel) :
    parseLoop syn whole maxlen opt wantArg fuel opts =
      some (expected syn whole maxlen opt wantArg) := by
  have positive : 0 < opt.length := List.length_pos_iff.mpr nonempty
  induction fuel generalizing opts with
  | zero => omega
  | succ fuel ih =>
    rw [parseLoop]
    cases isNext : strstr (whole.drop opts) opt with
    | none =>
      rw [expected, searched.found_none plain isNext]
      rfl
    | some k =>
      obtain ⟨-, fits, -⟩ := searched.occurs isNext
      dsimp only
      by_cases far : opts + k + opt.length > maxlen
      · rw [if_pos far, expected, eq_comm, Option.some_inj, Option.bind_eq_none_iff]
        intro p isFound
        have late := searched.found_late plain isNext isFound
        exact if_pos (by omega)
      · rw [if_neg far]
        by_cases edges : (leftEdge syn whole opts (opts + k) &&
            rightEdge syn whole (opts + k + opt.length)) = true
        · rw [if_pos edges]
          rw [Bool.and_eq_true] at edges
          have isFound := searched.found_here plain nonempty single isNext (Nat.not_lt.mp far)
            edges.1 edges.2
          rw [expected, isFound, Option.bind_some, if_neg far]
        · rw [if_neg edges]
          exact ih (searched.next plain isNext edges) (by omega)

end Search

/-! ## A part of a string -/

theorem length_takeWhile_not (stop : UInt8 → Bool) (s : List UInt8) :
    (s.takeWhile fun c => !stop c).length = (s.findIdx? stop).getD s.length := by
  induction s with
  | nil => rfl
  | cons c s ih =>
    rw [List.takeWhile_cons, List.findIdx?_cons]
    by_cases stops : stop c
    · simp [stops]
    · simp only [stops, Bool.not_false, if_true, Bool.false_eq_true, if_false, List.length_cons, ih]
      cases s.findIdx? stop <;> rfl

section Part

variable {syn} {text tail opt : List UInt8} {wantArg : Bool}
  (ends : ∀ c ∈ tail.head?, syn.isStop c = true)
include ends

theorem doubled_append :
    Doubled syn (text ++ tail) opt text.length ↔ Doubled syn text opt text.length := by
  refine exists_congr fun p => and_congr_right fun inside => ?_
  have size : (opt ++ opt).length ≤ (text.drop p).length := by
    rw [List.length_append, List.length_drop]
    omega
  have twice : opt ++ opt <+: (text ++ tail).drop p ↔ opt ++ opt <+: text.drop p := by
    rw [List.drop_append_of_le_length (by omega)]
    exact ⟨fun front => List.prefix_of_prefix_length_le front (List.prefix_append _ _) size,
      fun front => front.trans (List.prefix_append _ _)⟩
  have items : (∀ q ≤ p, begins syn.isStop (text ++ tail) q = true →
        named syn.eqch opt (itemAt syn.isStop (text ++ tail) q) = false) ↔
      ∀ q ≤ p, begins syn.isStop text q = true →
        named syn.eqch opt (itemAt syn.isStop text q) = false := by
    refine forall₂_congr fun q less => ?_
    rw [begins_append (by omega), itemAt_append ends (by omega)]
  rw [nameEnds_append ends inside, twice, items]

/-- The first item of the part that is the option is that of the string, if its name ends in the
part. -/
theorem expected_append (plain : ∀ c ∈ opt, syn.isStop c = false) :
    expected syn (text ++ tail) text.length opt wantArg =
      (found syn text opt).bind (matched syn (text ++ tail) text.length opt wantArg) := by
  have same {p : Nat} (inside : p ≤ text.length) :
      begins syn.isStop (text ++ tail) p = begins syn.isStop text p ∧
        itemAt syn.isStop (text ++ tail) p = itemAt syn.isStop text p :=
    ⟨begins_append inside, itemAt_append ends inside⟩
  cases isFound : found syn text opt with
  | some p =>
    obtain ⟨inside, begun, isNamed, first⟩ := firstPlace_eq_some.mp isFound
    have fits := ((named_itemAt plain p).mp isNamed).1.length_le
    rw [List.length_drop] at fits
    have isFoundThere : found syn (text ++ tail) opt = some p := by
      refine firstPlace_eq_some.mpr ⟨by rw [List.length_append]; omega, ?_, ?_, ?_⟩
      · rw [(same inside).1, begun]
      · rw [(same inside).2, isNamed]
      · intro q less
        rw [(same (Nat.le_trans (Nat.le_of_lt less) inside)).1,
          (same (Nat.le_trans (Nat.le_of_lt less) inside)).2]
        exact first q less
    rw [expected, isFoundThere, Option.bind_some, Option.bind_some, if_neg (by omega)]
  | none =>
    rw [expected, Option.bind_none, Option.bind_eq_none_iff]
    intro p isFoundThere
    obtain ⟨-, begun, isNamed, -⟩ := firstPlace_eq_some.mp isFoundThere
    have outside : text.length < p := by
      by_contra inside
      rw [(same (Nat.not_lt.mp inside)).2,
        firstPlace_eq_none.mp isFound p (Nat.not_lt.mp inside)
          ((same (Nat.not_lt.mp inside)).1 ▸ begun)] at isNamed
      cases isNamed
    exact if_pos (by omega)

theorem arglen_eq {p : Nat} (inside : p ≤ text.length) :
    arglen syn (text ++ tail) text.length opt.length p (p + opt.length) =
      (itemAt syn.isStop text p).length - opt.length - 1 := by
  have size : (strpbrk syn ((text ++ tail).drop p)).getD ((text ++ tail).length - p) =
      (itemAt syn.isStop text p).length := by
    rw [← itemAt_append ends inside, itemAt, ← List.length_drop, strpbrk]
    exact (length_takeWhile_not syn.isStop _).symm
  cases stops : strpbrk syn ((text ++ tail).drop p) with
  | some k =>
    rw [stops, Option.getD_some] at size
    rw [arglen, stops, ← size]
    dsimp only
    omega
  | none =>
    rw [stops, Option.getD_none] at size
    have whole : tail = [] := by
      cases tail with
      | nil => rfl
      | cons c tail =>
        rw [strpbrk, List.findIdx?_eq_none_iff] at stops
        have member : c ∈ (text ++ c :: tail).drop p := by
          rw [List.drop_append_of_le_length inside]
          exact List.mem_append_right _ List.mem_cons_self
        have goes := stops c member
        rw [ends c rfl] at goes
        cases goes
    subst whole
    rw [arglen, stops, ← size, List.append_nil]
    dsimp only
    rw [Nat.min_eq_right (Nat.sub_le _ _)]

theorem getElem?_eqch (plainEq : syn.isStop syn.eqch = false) {e : Nat} (inside : e ≤ text.length) :
    (text ++ tail)[e]? = some syn.eqch ↔ text[e]? = some syn.eqch := by
  rcases Nat.lt_or_eq_of_le inside with less | rfl
  · rw [List.getElem?_append_left less]
  · rw [List.getElem?_append_right (Nat.le_refl _), Nat.sub_self, ← List.head?_eq_getElem?,
      List.getElem?_eq_none (Nat.le_refl _)]
    refine iff_of_false (fun isEq => ?_) (by simp)
    rw [ends _ isEq] at plainEq
    cases plainEq

theorem drop_item {p : Nat} (inside : p ≤ text.length) :
    ∃ behind, (∀ c ∈ behind.head?, syn.isStop c = true) ∧
      (text ++ tail).drop p = itemAt syn.isStop text p ++ behind := by
  refine ⟨((text ++ tail).drop p).dropWhile fun c => !syn.isStop c, ?_, ?_⟩
  · intro c isHead
    have stops := List.head?_dropWhile_not (fun c => !syn.isStop c) ((text ++ tail).drop p)
    rw [isHead] at stops
    simpa using stops
  · rw [← itemAt_append ends inside, itemAt, List.takeWhile_append_dropWhile]

end Part

/-! ## What is found -/

/-- The argument is found: the pointer is to it, one of `stopchs` or the end of the string stands
behind it, and the length is its. -/
def Gives (syn : Syntax) (result : Option (Option (List UInt8 × Nat))) :
    (arg : Option (List UInt8)) → Prop
  | none => result = some none
  | some arg => ∃ behind, (∀ c ∈ behind.head?, syn.isStop c = true) ∧
      result = some (some (arg ++ behind, arg.length))

/-- The first item of a string that is the option, or the option with an argument. -/
def firstItem (syn : Syntax) (text opt : List UInt8) : Option (List UInt8) :=
  (text.splitOnP syn.isStop).find? (named syn.eqch opt)

section Parse

variable {syn} {text tail opt : List UInt8} (plainEq : syn.isStop syn.eqch = false)
  (ends : ∀ c ∈ tail.head?, syn.isStop c = true) (nonempty : opt ≠ [])
  (plain : ∀ c ∈ opt, syn.isStop c = false) (single : ¬Doubled syn text opt text.length)

include ends nonempty plain single in
theorem hwconfigParse_eq (wantArg : Bool) :
    hwconfigParse syn (text ++ tail) text.length opt wantArg =
      some (((found syn text opt).bind
        (matched syn (text ++ tail) text.length opt wantArg)).map
          fun place => ((text ++ tail).drop place.1, place.2)) := by
  have loop : parseLoop syn (text ++ tail) text.length opt wantArg ((text ++ tail).length + 1) 0 =
      some (expected syn (text ++ tail) text.length opt wantArg) :=
    parseLoop_eq nonempty plain (mt (doubled_append ends).mp single) .start (by omega)
  rw [hwconfigParse, loop, expected_append ends plain, Option.map_some]

include ends nonempty plain single in
theorem hwconfigParse_query :
    (hwconfigParse syn (text ++ tail) text.length opt false).map Option.isSome =
      some ((text.splitOnP syn.isStop).any (named syn.eqch opt)) := by
  rw [hwconfigParse_eq ends nonempty plain single, Option.map_some, ← List.isSome_find?,
    find?_splitOnP]
  cases isFound : found syn text opt with
  | none => rw [show firstPlace syn.isStop text (named syn.eqch opt) = none from isFound]; rfl
  | some p => rw [show firstPlace syn.isStop text (named syn.eqch opt) = some p from isFound]; rfl

include plainEq ends nonempty plain single in
/-- A search for an argument gives that of the first item that is the option. -/
theorem hwconfigParse_arg :
    Gives syn (hwconfigParse syn (text ++ tail) text.length opt true)
      ((firstItem syn text opt).bind (argument syn.eqch opt)) := by
  rw [hwconfigParse_eq ends nonempty plain single, firstItem, find?_splitOnP]
  change Gives syn _ (((found syn text opt).map (itemAt syn.isStop text)).bind _)
  cases isFound : found syn text opt with
  | none => rfl
  | some p =>
    obtain ⟨inside, -, isNamed, -⟩ := firstPlace_eq_some.mp isFound
    have there := ((named_itemAt plain p).mp isNamed).1
    have fits := there.length_le
    rw [List.length_drop] at fits
    have front := argument_itemAt plain plainEq there
    rw [Option.bind_some, Option.map_some, Option.bind_some, front, matched,
      if_neg (show ¬true = false by decide)]
    have same : (text ++ tail)[p + opt.length]? = some syn.eqch ↔
        text[p + opt.length]? = some syn.eqch := getElem?_eqch ends plainEq (by omega)
    by_cases hasArg : text[p + opt.length]? = some syn.eqch
    · rw [if_pos hasArg, if_neg (not_not.mpr (same.mpr hasArg)), Option.map_some,
        arglen_eq ends inside]
      rw [argument, if_pos hasArg] at front
      obtain ⟨behind, stops, parts⟩ := drop_item ends inside
      have long : opt.length + 1 ≤ (itemAt syn.isStop text p).length := by
        by_cases isPrefix : (opt ++ [syn.eqch]).isPrefixOf (itemAt syn.isStop text p) = true
        · simpa using (List.isPrefixOf_iff_prefix.mp isPrefix).length_le
        · rw [if_neg isPrefix] at front
          cases front
      refine ⟨behind, stops, ?_⟩
      rw [Nat.add_assoc, ← List.drop_drop, parts, List.drop_append_of_le_length long,
        List.length_drop, Nat.sub_sub]
    · rw [if_neg hasArg, if_pos (mt same.mp hasArg)]
      rfl

end Parse

/-! ## Options and sub-options -/

theorem hwconfig_eq {opt : List UInt8} (nonempty : opt ≠ []) (wantArg : Bool) (buf : List UInt8) :
    hwconfig opt wantArg buf = hwconfigParse optionSyntax buf buf.length opt wantArg := by
  have empty : hwconfigParse optionSyntax [] 0 opt wantArg = some none := by
    cases opt with
    | nil => exact absurd rfl nonempty
    | cons c opt => rfl
  rw [hwconfig, firstFound]
  cases hwconfigParse optionSyntax buf buf.length opt wantArg with
  | none => rfl
  | some result =>
    cases result with
    | some found => rfl
    | none =>
      dsimp only
      rw [firstFound, boardHwconfig, List.length_nil, empty]
      dsimp only
      rw [firstFound, cpuHwconfig, List.length_nil, empty]
      rfl

theorem optionSyntax_isStop : optionSyntax.isStop = (· == 0x3b) := by
  funext c
  simp [Syntax.isStop, optionSyntax, Bool.beq_eq_decide_eq]

theorem splitOnP_congr {stop stop' : UInt8 → Bool} {text : List UInt8}
    (same : ∀ c ∈ text, stop c = stop' c) : text.splitOnP stop = text.splitOnP stop' := by
  induction text with
  | nil => rfl
  | cons c text ih =>
    rw [List.splitOnP_cons_eq_if_modifyHead, List.splitOnP_cons_eq_if_modifyHead,
      same c List.mem_cons_self, ih fun d member => same d (List.mem_cons_of_mem c member)]

theorem splitOnP_suboption {arg : List UInt8} (plain : ∀ c ∈ arg, c ≠ 0x3b) :
    arg.splitOnP suboptionSyntax.isStop = arg.splitOn 0x2c := by
  refine splitOnP_congr fun c member => ?_
  have other := plain c member
  simp [Syntax.isStop, suboptionSyntax, other, Bool.beq_eq_decide_eq]

/-- The argument of the first item that is an option, or the option with an argument. -/
def argumentOf (opt buf : List UInt8) : Option (List UInt8) :=
  ((buf.splitOn 0x3b).find? (named 0x3a opt)).bind (argument 0x3a opt)

/-- The argument of the first sub-option in an argument that is a sub-option. -/
def subargumentOf (subopt arg : List UInt8) : Option (List UInt8) :=
  ((arg.splitOn 0x2c).find? (named 0x3d subopt)).bind (argument 0x3d subopt)

/-- An option stands twice in a row, and ends there, in front of the first item that is it. -/
def OptionDoubled (opt buf : List UInt8) : Prop := Doubled optionSyntax buf opt buf.length

/-- A sub-option stands twice in a row, and ends there, in front of the first item that is it. -/
def SuboptionDoubled (subopt arg : List UInt8) : Prop :=
  Doubled suboptionSyntax arg subopt arg.length

/-- What the sub-options of an option are, by its argument. -/
def AnswersIn (opt subopt buf : List UInt8) : (arg : Option (List UInt8)) → Prop
  | none => hwconfigSubF opt subopt buf = some false ∧ hwconfigSubargF opt subopt buf = some none
  | some arg => ¬SuboptionDoubled subopt arg →
      hwconfigSubF opt subopt buf = some ((arg.splitOn 0x2c).any (named 0x3d subopt)) ∧
      Gives suboptionSyntax (hwconfigSubargF opt subopt buf) (subargumentOf subopt arg)

theorem argumentOf_plain {opt buf arg : List UInt8} (isArg : argumentOf opt buf = some arg) :
    ∀ c ∈ arg, c ≠ 0x3b := by
  obtain ⟨item, isItem, isArg⟩ := Option.bind_eq_some_iff.mp isArg
  rw [List.splitOn, find?_splitOnP, Option.map_eq_some_iff] at isItem
  obtain ⟨p, -, rfl⟩ := isItem
  rw [argument] at isArg
  split at isArg
  · obtain rfl := Option.some.inj isArg
    intro c member
    have goes := List.mem_takeWhile_imp (List.mem_of_mem_drop member)
    simpa using goes
  · cases isArg

section Answers

variable {opt buf : List UInt8} (nonempty : opt ≠ []) (plain : ∀ c ∈ opt, c ≠ 0x3b)
  (single : ¬OptionDoubled opt buf)
include nonempty plain single

omit single nonempty in
theorem option_plain : ∀ c ∈ opt, optionSyntax.isStop c = false := by
  intro c member
  rw [optionSyntax_isStop]
  exact beq_eq_false_iff_ne.mpr (plain c member)

theorem hwconfigF_eq : hwconfigF opt buf = some ((buf.splitOn 0x3b).any (named 0x3a opt)) := by
  have ends : ∀ c ∈ ([] : List UInt8).head?, optionSyntax.isStop c = true := by simp
  have query := hwconfigParse_query ends nonempty (option_plain plain) single
  rw [List.append_nil, optionSyntax_isStop] at query
  rw [hwconfigF, hwconfig_eq nonempty]
  exact query

theorem hwconfigArgF_gives : Gives optionSyntax (hwconfigArgF opt buf) (argumentOf opt buf) := by
  have ends : ∀ c ∈ ([] : List UInt8).head?, optionSyntax.isStop c = true := by simp
  have gives := hwconfigParse_arg (by decide) ends nonempty (option_plain plain) single
  rw [List.append_nil, firstItem, optionSyntax_isStop] at gives
  rw [hwconfigArgF, hwconfig_eq nonempty]
  exact gives

/-- The sub-options of an option are those of its argument. -/
theorem answersIn {subopt : List UInt8} (subNonempty : subopt ≠ [])
    (subPlain : ∀ c ∈ subopt, c ≠ 0x2c ∧ c ≠ 0x3b) :
    AnswersIn opt subopt buf (argumentOf opt buf) := by
  have gives := hwconfigArgF_gives nonempty plain single
  rw [hwconfigArgF] at gives
  cases isArg : argumentOf opt buf with
  | none =>
    rw [isArg, Gives] at gives
    rw [AnswersIn, hwconfigSubF, hwconfigSubargF, hwconfigSub, hwconfigSub, gives]
    exact ⟨rfl, rfl⟩
  | some arg =>
    intro subSingle
    rw [isArg] at gives
    obtain ⟨behind, stops, isFound⟩ := gives
    have ends : ∀ c ∈ behind.head?, suboptionSyntax.isStop c = true := by
      intro c isHead
      have isSemicolon := stops c isHead
      rw [optionSyntax_isStop, beq_iff_eq] at isSemicolon
      rw [isSemicolon]
      rfl
    have names : ∀ c ∈ subopt, suboptionSyntax.isStop c = false := by
      intro c member
      have other := subPlain c member
      simp [Syntax.isStop, suboptionSyntax, other]
    have items := splitOnP_suboption (argumentOf_plain isArg)
    have query := hwconfigParse_query ends subNonempty names subSingle
    have argument := hwconfigParse_arg (by decide) ends subNonempty names subSingle
    rw [items] at query
    rw [firstItem, items] at argument
    rw [hwconfigSubF, hwconfigSubargF, hwconfigSub, hwconfigSub, isFound]
    exact ⟨query, argument⟩

end Answers

/-- An option is found if an item is it, or it with an argument, its argument is that of the first
such item, and its sub-options are those of this argument, unless the option, or a sub-option in
the argument, stands twice in a row in front of the first such item. -/
theorem hwconfig_items {opt buf : List UInt8} (nonempty : opt ≠ [])
    (plain : ∀ c ∈ opt, c ≠ 0x3b) (single : ¬OptionDoubled opt buf) :
    hwconfigF opt buf = some ((buf.splitOn 0x3b).any (named 0x3a opt)) ∧
    Gives optionSyntax (hwconfigArgF opt buf) (argumentOf opt buf) ∧
    ∀ subopt : List UInt8, subopt ≠ [] → (∀ c ∈ subopt, c ≠ 0x2c ∧ c ≠ 0x3b) →
      AnswersIn opt subopt buf (argumentOf opt buf) :=
  ⟨hwconfigF_eq nonempty plain single, hwconfigArgF_gives nonempty plain single,
    fun _ subNonempty subPlain => answersIn nonempty plain single subNonempty subPlain⟩

/-- `kk2;k:a=1` -/
def kOptions : List UInt8 := [0x6b, 0x6b, 0x32, 0x3b, 0x6b, 0x3a, 0x61, 0x3d, 0x31]

theorem kOptions_single : ¬OptionDoubled [0x6b] kOptions := by
  have nowhere : ∀ p < 8, [0x6b] ++ [0x6b] <+: kOptions.drop p →
      nameEnds optionSyntax.isStop optionSyntax.eqch kOptions (p + 2) = false := by
    decide
  rintro ⟨p, inside, twice, ends, -⟩
  rw [show kOptions.length = 9 from rfl, List.length_singleton] at inside
  rw [List.length_singleton, nowhere p (by omega) twice] at ends
  cases ends

/-- The option `k` is found, and its argument is `a=1`. -/
theorem hwconfig_items_second :
    hwconfigF [0x6b] kOptions = some ((kOptions.splitOn 0x3b).any (named 0x3a [0x6b])) ∧
      Gives optionSyntax (hwconfigArgF [0x6b] kOptions) (some [0x61, 0x3d, 0x31]) := by
  have items := hwconfig_items (by decide) (List.forall_mem_singleton.mpr (by decide))
    kOptions_single
  exact ⟨items.1, items.2.1⟩

/-- Where the first item that is the option has no argument, none is given, although a later item
has one: `key;key:1`. -/
theorem hwconfigArgF_first :
    hwconfigArgF [0x6b, 0x65, 0x79]
      [0x6b, 0x65, 0x79, 0x3b, 0x6b, 0x65, 0x79, 0x3a, 0x31] = some none ∧
    (List.splitOn 0x3b [0x6b, 0x65, 0x79, 0x3b, 0x6b, 0x65, 0x79, 0x3a, 0x31]).find?
        (List.isPrefixOf [0x6b, 0x65, 0x79, 0x3a]) = some [0x6b, 0x65, 0x79, 0x3a, 0x31] := by
  decide

end HrppBoot.Env.Hwconfig
