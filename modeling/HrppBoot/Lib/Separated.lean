import Mathlib.Data.List.Basic

/-!
# Items between separators

The items of a text are what stands between its separators. An item begins at the start of the text
or behind a separator, and reaches up to the next one; so the items are those that begin at the
places where items begin, in order. A text that goes on behind a separator has the same items up to
there.
-/

namespace Separated

variable {α : Type} (stop : α → Bool) (text : List α)

/-- An item begins at a place: at the start, or behind a separator. -/
def begins : Nat → Bool
  | 0 => true
  | p + 1 => text[p]?.any stop

/-- What stands at a place up to the next separator. -/
def itemAt (p : Nat) : List α := (text.drop p).takeWhile fun c => !stop c

/-- The first place where an item begins that is wanted. -/
def firstPlace (wanted : List α → Bool) : Option Nat :=
  (List.range (text.length + 1)).find? fun p => begins stop text p && wanted (itemAt stop text p)

/-- The places behind the start where items begin. -/
def laterPlaces : List Nat :=
  ((List.range text.length).map Nat.succ).filter (begins stop text)

variable {stop text}

theorem laterPlaces_cons (c : α) (text : List α) :
    laterPlaces stop (c :: text) =
      (if stop c then [1] else []) ++ (laterPlaces stop text).map Nat.succ := by
  have step (places : List Nat) :
      ((places.map Nat.succ).map Nat.succ).filter (begins stop (c :: text)) =
        ((places.map Nat.succ).filter (begins stop text)).map Nat.succ := by
    rw [List.filter_map, List.filter_map, List.filter_map]
    rfl
  rw [laterPlaces, List.length_cons, List.range_succ_eq_map, List.map_cons, List.filter_cons, step]
  by_cases ends : stop c
  · rw [if_pos ends, if_pos (by simpa [begins] using ends)]
    rfl
  · rw [if_neg ends, if_neg (by simpa [begins] using ends)]
    rfl

/-- The items of a text are those at its start and behind each stop. -/
theorem splitOnP_eq (stop : α → Bool) (text : List α) :
    text.splitOnP stop =
      itemAt stop text 0 :: (laterPlaces stop text).map (itemAt stop text) := by
  induction text with
  | nil => rfl
  | cons c text ih =>
    have moved : itemAt stop (c :: text) ∘ Nat.succ = itemAt stop text := rfl
    rw [List.splitOnP_cons_eq_if_modifyHead, ih, laterPlaces_cons, List.map_append, List.map_map,
      moved]
    by_cases ends : stop c
    · rw [if_pos ends, if_pos ends]
      simp only [itemAt, List.drop_zero, List.takeWhile_cons, ends]
      rfl
    · rw [if_neg ends, if_neg ends]
      simp [itemAt, ends]

theorem find?_splitOnP (stop : α → Bool) (text : List α) (wanted : List α → Bool) :
    (text.splitOnP stop).find? wanted =
      (firstPlace stop text wanted).map (itemAt stop text) := by
  have zero : begins stop text 0 = true := rfl
  have all : 0 :: laterPlaces stop text =
      (List.range (text.length + 1)).filter (begins stop text) := by
    rw [List.range_succ_eq_map, List.filter_cons_of_pos zero, laterPlaces]
  rw [splitOnP_eq, ← List.map_cons, firstPlace, all, List.find?_map, List.find?_filter]
  simp

/-- The first place begins a wanted item, and none before it does. -/
theorem firstPlace_eq_some {wanted : List α → Bool} {p : Nat} :
    firstPlace stop text wanted = some p ↔ p ≤ text.length ∧ begins stop text p = true ∧
      wanted (itemAt stop text p) = true ∧
      ∀ q < p, begins stop text q = true → wanted (itemAt stop text q) = false := by
  rw [firstPlace, List.find?_range_eq_some]
  simp only [Bool.and_eq_true, List.mem_range, Nat.lt_succ_iff, Bool.not_eq_true',
    Bool.and_eq_false_imp]
  tauto

theorem firstPlace_eq_none {wanted : List α → Bool} :
    firstPlace stop text wanted = none ↔
      ∀ p ≤ text.length, begins stop text p = true → wanted (itemAt stop text p) = false := by
  rw [firstPlace, List.find?_range_eq_none]
  simp only [Nat.lt_succ_iff, Bool.not_eq_true', Bool.and_eq_false_imp]

/-! ## A part of a text -/

section Append

variable {tail : List α} {p : Nat}

theorem begins_append (inside : p ≤ text.length) :
    begins stop (text ++ tail) p = begins stop text p := by
  cases p with
  | zero => rfl
  | succ p => rw [begins, begins, List.getElem?_append_left inside]

theorem itemAt_append (ends : ∀ c ∈ tail.head?, stop c = true) (inside : p ≤ text.length) :
    itemAt stop (text ++ tail) p = itemAt stop text p := by
  rw [itemAt, itemAt, List.drop_append_of_le_length inside]
  generalize text.drop p = rest
  induction rest with
  | nil =>
    cases tail with
    | nil => rfl
    | cons c tail => simp [ends c rfl]
  | cons c rest ih =>
    rw [List.cons_append, List.takeWhile_cons, List.takeWhile_cons, ih]

end Append

/-! ## Names -/

section Names

variable [DecidableEq α]

/-- The item is the name, or the name and an argument behind `eq`. -/
def named (eq : α) (name item : List α) : Bool := item == name || (name ++ [eq]).isPrefixOf item

/-- The argument of an item that has one. -/
def argument (eq : α) (name item : List α) : Option (List α) :=
  if (name ++ [eq]).isPrefixOf item then some (item.drop (name.length + 1)) else none

/-- A name may end at a place: at the end of the text, at a separator or at `eq`. -/
def nameEnds (stop : α → Bool) (eq : α) (text : List α) (e : Nat) : Bool :=
  text[e]?.all fun c => stop c || c == eq

variable {name : List α} {eq : α}

omit [DecidableEq α] in
theorem takeWhile_name (plain : ∀ c ∈ name, stop c = false) (rest : List α) :
    (name ++ rest).takeWhile (fun c => !stop c) = name ++ rest.takeWhile fun c => !stop c :=
  List.takeWhile_append_of_pos fun c member => by rw [plain c member]; rfl

theorem named_append (plain : ∀ c ∈ name, stop c = false) (rest : List α) :
    named eq name ((name ++ rest).takeWhile fun c => !stop c) = true ↔
      (rest.head?.all fun c => stop c || c == eq) = true := by
  rw [named, takeWhile_name plain, Bool.or_eq_true, beq_iff_eq, List.isPrefixOf_iff_prefix,
    List.append_right_eq_self, List.prefix_append_right_inj]
  cases rest with
  | nil => simp
  | cons c rest =>
    by_cases ends : stop c
    · simp [ends]
    · have other : [eq] <+: c :: rest.takeWhile (fun c => !stop c) ↔ c = eq := by
        simp [List.cons_prefix_cons, eq_comm]
      simp [ends, other]

theorem named_itemAt (plain : ∀ c ∈ name, stop c = false) (p : Nat) :
    named eq name (itemAt stop text p) = true ↔
      name <+: text.drop p ∧ nameEnds stop eq text (p + name.length) = true := by
  rw [nameEnds, ← List.getElem?_drop, itemAt]
  generalize text.drop p = rest
  by_cases front : name <+: rest
  · obtain ⟨behind, rfl⟩ := front
    rw [named_append plain, List.getElem?_append_right (Nat.le_refl _), Nat.sub_self,
      ← List.head?_eq_getElem?]
    exact (and_iff_right (List.prefix_append _ _)).symm
  · refine iff_of_false (fun isNamed => front ?_) fun both => front both.1
    rw [named, Bool.or_eq_true, beq_iff_eq, List.isPrefixOf_iff_prefix] at isNamed
    rcases isNamed with same | longer
    · exact same ▸ List.takeWhile_prefix _
    · exact (List.prefix_append _ _).trans (longer.trans (List.takeWhile_prefix _))

theorem nameEnds_append {tail : List α} {e : Nat} (ends : ∀ c ∈ tail.head?, stop c = true)
    (inside : e ≤ text.length) :
    nameEnds stop eq (text ++ tail) e = nameEnds stop eq text e := by
  rw [nameEnds, nameEnds]
  rcases Nat.lt_or_eq_of_le inside with less | rfl
  · rw [List.getElem?_append_left less]
  · rw [List.getElem?_append_right (Nat.le_refl _), Nat.sub_self, ← List.head?_eq_getElem?,
      List.getElem?_eq_none (Nat.le_refl _)]
    cases tail with
    | nil => rfl
    | cons c tail => simp [ends c rfl]

theorem argument_itemAt (plain : ∀ c ∈ name, stop c = false) (plainEq : stop eq = false) {p : Nat}
    (there : name <+: text.drop p) :
    argument eq name (itemAt stop text p) =
      if text[p + name.length]? = some eq then
        some ((itemAt stop text p).drop (name.length + 1)) else none := by
  obtain ⟨rest, parts⟩ := there
  have behind : text[p + name.length]? = rest.head? := by
    rw [← List.getElem?_drop, ← parts, List.getElem?_append_right (Nat.le_refl _), Nat.sub_self,
      List.head?_eq_getElem?]
  have front : (name ++ [eq]).isPrefixOf (itemAt stop text p) = true ↔ rest.head? = some eq := by
    rw [itemAt, ← parts, takeWhile_name plain, List.isPrefixOf_iff_prefix,
      List.prefix_append_right_inj]
    cases rest with
    | nil => simp
    | cons c rest =>
      by_cases same : c = eq
      · subst same
        simp [plainEq]
      · by_cases ends : stop c <;> simp [ends, same, Ne.symm same]
  rw [argument, behind]
  simp only [front]

end Names

end Separated
