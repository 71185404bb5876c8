import Mathlib.Data.List.Induction
import Mathlib.Data.List.Sort

/-!
# Lists sorted by a key

The group of a key in a list is the list of the elements that have it, in the order of the list. A
list that is sorted by its keys is determined by its groups. Inserting an element in front of the
first one whose key is not smaller puts it at the front of its group; so inserting the elements of a
sorted list one after the other turns each group around, and gives the list back if and only if each
group reads the same backwards.
-/

namespace HrppBoot.Lib

variable {α κ : Type*} [LinearOrder κ] {key : α → κ}

/-- The elements with a key, in order. -/
def keyGroup (key : α → κ) (k : κ) (xs : List α) : List α := xs.filter fun a => key a = k

/-- The elements are sorted by their keys. -/
abbrev KeySorted (key : α → κ) (xs : List α) : Prop := xs.Pairwise fun a b => key a ≤ key b

/-- Inserts an element in front of the first one whose key is not smaller. -/
abbrev keyInsert (key : α → κ) (a : α) (xs : List α) : List α :=
  xs.orderedInsert (fun a b => key a ≤ key b) a

variable {a : α} {k : κ} {xs : List α}

theorem keyInsert_front {b : α} (front : key a ≤ key b) (xs : List α) :
    keyInsert key a (b :: xs) = a :: b :: xs :=
  @List.orderedInsert_cons_of_le _ _ _ a b xs front

theorem keyInsert_behind {b : α} (behind : key b < key a) (xs : List α) :
    keyInsert key a (b :: xs) = b :: keyInsert key a xs :=
  @List.orderedInsert_of_not_le _ _ _ a b xs (not_le.mpr behind)

theorem group_cons_same (same : key a = k) :
    keyGroup key k (a :: xs) = a :: keyGroup key k xs := by
  simp [keyGroup, same]

theorem group_cons_other (other : key a ≠ k) :
    keyGroup key k (a :: xs) = keyGroup key k xs := by
  simp [keyGroup, other]

theorem mem_group : a ∈ keyGroup key k xs ↔ a ∈ xs ∧ key a = k := by
  simp [keyGroup]

theorem group_append (k : κ) (xs ys : List α) :
    keyGroup key k (xs ++ ys) = keyGroup key k xs ++ keyGroup key k ys := List.filter_append ..

/-- Sorted lists with the same groups are the same. -/
theorem eq_of_groups {ys : List α} (left : KeySorted key xs) (right : KeySorted key ys)
    (groups : ∀ k, keyGroup key k xs = keyGroup key k ys) : xs = ys := by
  induction xs generalizing ys with
  | nil =>
    cases ys with
    | nil => rfl
    | cons b ys => simpa [group_cons_same, keyGroup] using groups (key b)
  | cons a xs ih =>
    cases ys with
    | nil => simpa [group_cons_same, keyGroup] using groups (key a)
    | cons b ys =>
      have inRight : a ∈ b :: ys :=
        (mem_group.mp (groups (key a) ▸ mem_group.mpr ⟨List.mem_cons_self, rfl⟩)).1
      have inLeft : b ∈ a :: xs :=
        (mem_group.mp (groups (key b) ▸ mem_group.mpr ⟨List.mem_cons_self, rfl⟩)).1
      have lower : key b ≤ key a := by
        rcases List.mem_cons.mp inRight with rfl | member
        · exact le_rfl
        · exact List.rel_of_pairwise_cons right member
      have upper : key a ≤ key b := by
        rcases List.mem_cons.mp inLeft with rfl | member
        · exact le_rfl
        · exact List.rel_of_pairwise_cons left member
      have same : key a = key b := le_antisymm upper lower
      have heads := groups (key b)
      rw [group_cons_same same, group_cons_same rfl] at heads
      have first : a = b := (List.cons.inj heads).1
      subst first
      congr 1
      apply ih left.of_cons right.of_cons
      intro k
      have whole := groups k
      by_cases member : key a = k
      · rw [group_cons_same member, group_cons_same member] at whole
        exact (List.cons.inj whole).2
      · rwa [group_cons_other member, group_cons_other member] at whole

/-- An insertion puts a value in front of those with its key. -/
theorem group_keyInsert (sorted : KeySorted key xs) (k : κ) (a : α) :
    keyGroup key k (keyInsert key a xs) =
      if key a = k then a :: keyGroup key k xs else keyGroup key k xs := by
  induction xs with
  | nil => by_cases same : key a = k <;> simp [keyGroup, same]
  | cons b xs ih =>
    rcases le_or_gt (key a) (key b) with front | behind
    · rw [keyInsert_front front]
      split
      next same => rw [group_cons_same same]
      next other => rw [group_cons_other other]
    · rw [keyInsert_behind behind]
      have rest := ih sorted.of_cons
      by_cases member : key b = k
      · have other : key a ≠ k := by rintro rfl; exact behind.ne member
        rw [if_neg other] at rest ⊢
        rw [group_cons_same member, group_cons_same member, rest]
      · rw [group_cons_other member, group_cons_other member, rest]

theorem keySorted_keyInsert (sorted : KeySorted key xs) (a : α) :
    KeySorted key (keyInsert key a xs) := by
  induction xs with
  | nil => exact List.pairwise_singleton _ _
  | cons b xs ih =>
    rcases le_or_gt (key a) (key b) with front | behind
    · rw [keyInsert_front front]
      refine List.pairwise_cons.mpr ⟨fun c member => ?_, sorted⟩
      rcases List.mem_cons.mp member with rfl | member
      · exact front
      · exact front.trans (List.rel_of_pairwise_cons sorted member)
    · rw [keyInsert_behind behind]
      refine List.pairwise_cons.mpr ⟨fun c member => ?_, ih sorted.of_cons⟩
      rcases List.mem_cons.mp ((List.perm_orderedInsert _ a xs).mem_iff.mp member) with rfl | member
      · exact behind.le
      · exact List.rel_of_pairwise_cons sorted member

/-- The elements of a list, inserted one after the other. -/
def keyInsertAll (key : α → κ) (xs : List α) : List α :=
  xs.foldl (fun sorted a => keyInsert key a sorted) []

theorem keyInsertAll_concat (xs : List α) (a : α) :
    keyInsertAll key (xs ++ [a]) = keyInsert key a (keyInsertAll key xs) := by
  simp [keyInsertAll]

/-- Inserting one after the other sorts. -/
theorem keySorted_keyInsertAll (xs : List α) : KeySorted key (keyInsertAll key xs) := by
  induction xs using List.reverseRecOn with
  | nil => exact List.Pairwise.nil
  | append_singleton xs a ih => rw [keyInsertAll_concat]; exact keySorted_keyInsert ih a

/-- Inserting in the order of keys loses nothing. -/
theorem keyInsertAll_perm (xs : List α) : (keyInsertAll key xs).Perm xs := by
  induction xs using List.reverseRecOn with
  | nil => exact List.Perm.nil
  | append_singleton xs a ih =>
    rw [keyInsertAll_concat]
    exact (List.perm_orderedInsert _ a _).trans
      ((ih.cons a).trans (List.perm_append_singleton a xs).symm)

/-- Inserting turns around what has the same key. -/
theorem group_keyInsertAll (k : κ) (xs : List α) :
    keyGroup key k (keyInsertAll key xs) = (keyGroup key k xs).reverse := by
  induction xs using List.reverseRecOn with
  | nil => rfl
  | append_singleton xs a ih =>
    rw [keyInsertAll_concat, group_keyInsert (keySorted_keyInsertAll xs), ih, group_append]
    by_cases same : key a = k <;> simp [keyGroup, same]

/-- Inserting again changes nothing exactly if each group reads the same backwards. -/
theorem keyInsertAll_eq_iff (sorted : KeySorted key xs) :
    keyInsertAll key xs = xs ↔ ∀ k, (keyGroup key k xs).reverse = keyGroup key k xs := by
  constructor
  · intro same k
    rw [← group_keyInsertAll, same]
  · intro groups
    apply eq_of_groups (keySorted_keyInsertAll xs) sorted
    intro k
    rw [group_keyInsertAll, groups]

end HrppBoot.Lib
