import Mathlib.Data.List.Nodup

/-!
# Doubly linked lists in a store

A store maps indices to nodes with a value and two links. `Chain` says that the nodes of a list of
indices are linked in its order, with given links at the two ends, so that a list can be cut into
parts and each part changed on its own: `chain_append` cuts, `Chain.setNext` and `Chain.setPrev`
change the link at an end, and `Chain.congr` is the frame.
-/

namespace LinkedChain

variable {α : Type}

/-- A node of a doubly linked list. -/
@[ext] structure Node (α : Type) where
  value : α
  next : Nat
  prev : Nat

/-- The index of the first node of a list, or where the list leads on. -/
def first : List (Nat × α) → Nat → Nat
  | [], next => next
  | (i, _) :: _, _ => i

/-- The index of the last node of a list, or where the list comes from. -/
def last (prev : Nat) : List (Nat × α) → Nat
  | [] => prev
  | (i, _) :: rest => last i rest

/-- The nodes are linked in the order of the list, from `prev` to `next`. -/
def Chain (node : Nat → Node α) (prev : Nat) : List (Nat × α) → Nat → Prop
  | [], _ => True
  | (i, value) :: rest, next => node i = ⟨value, first rest next, prev⟩ ∧ Chain node i rest next

theorem first_append (left right : List (Nat × α)) (next : Nat) :
    first (left ++ right) next = first left (first right next) := by
  cases left <;> rfl

variable {list : List (Nat × α)} {next prev : Nat} {node : Nat → Node α}

theorem first_mem (nonempty : list ≠ []) (next : Nat) :
    first list next ∈ list.map Prod.fst := by
  cases list with
  | nil => exact absurd rfl nonempty
  | cons entry rest => simp [first]

theorem last_mem (nonempty : list ≠ []) (prev : Nat) :
    last prev list ∈ list.map Prod.fst := by
  induction list generalizing prev with
  | nil => exact absurd rfl nonempty
  | cons entry rest ih =>
    by_cases ends : rest = []
    · simp [ends, last]
    · exact List.mem_cons_of_mem _ (ih ends entry.1)

/-- A chain of two parts is two chains that meet. -/
theorem chain_append (node : Nat → Node α) (prev : Nat) (left right : List (Nat × α)) (next : Nat) :
    Chain node prev (left ++ right) next ↔
      Chain node prev left (first right next) ∧ Chain node (last prev left) right next := by
  induction left generalizing prev with
  | nil => simp [Chain, last]
  | cons entry left ih =>
    rw [List.cons_append, Chain, Chain, ih, first_append, last, and_assoc]

/-- A chain depends on its own nodes only. -/
theorem Chain.congr {node' : Nat → Node α} (chain : Chain node prev list next)
    (same : ∀ i ∈ list.map Prod.fst, node' i = node i) :
    Chain node' prev list next := by
  induction list generalizing prev with
  | nil => trivial
  | cons entry list ih =>
    obtain ⟨own, rest⟩ := chain
    refine ⟨?_, ih rest fun i member => same i (List.mem_cons_of_mem _ member)⟩
    rw [same entry.1 (List.mem_cons_self ..), own]

/-- The last node of a chain may be linked to another one. -/
theorem Chain.setNext (chain : Chain node prev list next) (nonempty : list ≠ [])
    (distinct : (list.map Prod.fst).Nodup) (next' : Nat) :
    Chain (Function.update node (last prev list) { node (last prev list) with next := next' }) prev
      list next' := by
  induction list generalizing prev with
  | nil => exact absurd rfl nonempty
  | cons entry list ih =>
    obtain ⟨own, rest⟩ := chain
    obtain ⟨new, distinct'⟩ := List.nodup_cons.mp distinct
    by_cases ends : list = []
    · subst ends
      refine ⟨?_, trivial⟩
      simp only [last, Function.update_self, own, first]
    · refine ⟨?_, ih rest ends distinct'⟩
      have other : entry.1 ≠ last entry.1 list := by
        intro same
        exact new (same ▸ last_mem ends entry.1)
      cases list with
      | nil => exact absurd rfl ends
      | cons second list => rw [last, Function.update_of_ne other, own, first, first]

theorem Chain.setPrev (chain : Chain node prev list next) (nonempty : list ≠ [])
    (distinct : (list.map Prod.fst).Nodup) (prev' : Nat) :
    Chain (Function.update node (first list next) { node (first list next) with prev := prev' })
      prev' list next := by
  cases list with
  | nil => exact absurd rfl nonempty
  | cons entry list =>
    obtain ⟨own, rest⟩ := chain
    obtain ⟨new, -⟩ := List.nodup_cons.mp distinct
    refine ⟨?_, rest.congr ?_⟩
    · simp only [first, Function.update_self, own]
    · intro i member
      have other : i ≠ entry.1 := by
        rintro rfl
        exact new member
      rw [first, Function.update_of_ne other]

end LinkedChain
