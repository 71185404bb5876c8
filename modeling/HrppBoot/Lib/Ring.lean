import Mathlib.Data.List.Basic

/-!
# Circular buffers

An array holds a queue that starts at a cell and goes on around the end of the array. Reading the
first cell takes the oldest value, and writing the cell behind the last one adds a value, which in a
full array replaces the oldest one: the queue then keeps the last values.
-/

namespace Ring

variable {α : Type}

/-! ## The last values -/

/-- The last `n` values. -/
def keepLast (n : Nat) (values : List α) : List α := values.drop (values.length - n)

theorem length_keepLast (n : Nat) (values : List α) :
    (keepLast n values).length = min n values.length := by
  rw [keepLast, List.length_drop]
  omega

variable {n i : Nat}

theorem keepLast_of_le {values : List α} (few : values.length ≤ n) :
    keepLast n values = values := by
  rw [keepLast, show values.length - n = 0 by omega, List.drop_zero]

theorem keepLast_append (n : Nat) (values later : List α) :
    keepLast n (keepLast n values ++ later) = keepLast n (values ++ later) := by
  rw [keepLast, keepLast, keepLast, List.length_append, List.length_append, List.length_drop,
    ← List.drop_append_of_le_length (by omega), List.drop_drop]
  congr 1
  omega

theorem keepLast_full {oldest last : α} {values : List α} (full : values.length + 1 = n) :
    keepLast n (oldest :: values ++ [last]) = values ++ [last] := by
  rw [keepLast, List.length_append, List.length_cons, List.length_singleton,
    show values.length + 1 + 1 - n = 1 by omega]
  rfl

/-! ## The array -/

/-- An index behind the end is the first one. -/
def wrap (n i : Nat) : Nat := if i = n then 0 else i

theorem wrap_lt (inside : i < n) : wrap n (i + 1) < n := by
  unfold wrap
  split <;> omega

theorem wrap_add (n i k : Nat) :
    (wrap n (i + 1) + k) % n = (i + (k + 1)) % n := by
  unfold wrap
  split
  · rw [show i + (k + 1) = 0 + k + n by omega, Nat.add_mod_right]
  · congr 1
    omega

theorem wrap_succ (inside : i < n) : wrap n (i + 1) = (i + 1) % n := by
  rw [← Nat.mod_eq_of_lt (wrap_lt inside)]
  exact wrap_add n i 0

/-- The array holds the queue from `head` on. -/
structure Holds (cells : List α) (head : Nat) (queue : List α) : Prop where
  inside : head < cells.length
  room : queue.length ≤ cells.length
  cell : ∀ k < queue.length, cells[(head + k) % cells.length]? = queue[k]?

variable {cells queue : List α} {head : Nat} {value : α}

theorem Holds.empty (some : 0 < cells.length) : Holds cells 0 [] :=
  ⟨some, Nat.zero_le _, fun _ less => absurd less (Nat.not_lt_zero _)⟩

theorem Holds.first (holds : Holds cells head (value :: queue)) : cells[head]? = some value := by
  have here := holds.cell 0 (Nat.succ_pos _)
  rwa [Nat.add_zero, Nat.mod_eq_of_lt holds.inside] at here

/-- Taking the first value moves the head. -/
theorem Holds.tail (holds : Holds cells head (value :: queue)) :
    Holds cells (wrap cells.length (head + 1)) queue := by
  refine ⟨wrap_lt holds.inside, Nat.le_of_succ_le holds.room, ?_⟩
  intro k less
  rw [wrap_add]
  exact holds.cell (k + 1) (Nat.succ_lt_succ less)

theorem mod_ne {j : Nat} (less : i < j) (near : j < i + n) : i % n ≠ j % n := by
  intro same
  have apart : (j - i) % n = 0 := Nat.sub_mod_eq_zero_of_mod_eq same.symm
  rw [Nat.mod_eq_of_lt (by omega)] at apart
  omega

/-- A value written behind the last one joins the queue. -/
theorem Holds.push (holds : Holds cells head queue) (free : queue.length < cells.length) (value : α)
    :
    Holds (cells.set ((head + queue.length) % cells.length) value) head (queue ++ [value]) := by
  have some := holds.inside
  refine ⟨by rwa [List.length_set], by simpa using Nat.succ_le_of_lt free, ?_⟩
  intro k less
  rw [List.length_set]
  rw [List.length_append, List.length_singleton] at less
  rcases Nat.lt_or_ge k queue.length with before | last
  · have other : (head + queue.length) % cells.length ≠ (head + k) % cells.length :=
      (mod_ne (by omega) (by omega)).symm
    rw [List.getElem?_set_ne other, List.getElem?_append_left before]
    exact holds.cell k before
  · obtain rfl : k = queue.length := by omega
    rw [List.getElem?_set_self (Nat.mod_lt _ (by omega)), List.getElem?_concat_length]

/-- A value pushed into a full ring takes the place of the oldest one. -/
theorem Holds.replace (holds : Holds cells head queue) (full : queue.length = cells.length)
    (value : α) :
    Holds (cells.set ((head + queue.length) % cells.length) value)
      (wrap cells.length (head + 1)) (keepLast cells.length (queue ++ [value])) := by
  cases queue with
  | nil => exact absurd holds.inside (by simp [← full])
  | cons oldest queue =>
    rw [keepLast_full full]
    have behind : (head + (oldest :: queue).length) % cells.length =
        (wrap cells.length (head + 1) + queue.length) % cells.length :=
      (wrap_add _ _ _).symm
    rw [behind]
    exact holds.tail.push (Nat.lt_of_succ_le (Nat.le_of_eq full)) value

end Ring
