import Mathlib.Data.Nat.ModEq
import Mathlib.Data.Nat.Prime.Basic
import Mathlib.Order.Interval.Finset.Nat

/-!
# Probe sequences of double hashing

Buckets are numbered from 1 to `size`. A probe sequence goes down by a fixed step and wraps
around below 1. When the size is prime it visits every bucket once before it comes back to where
it started; that is all an open-addressing table needs to know about it.
-/

namespace Probe

/-- The bucket after `idx`: `step` lower, wrapping around below 1. -/
def next (size step idx : Nat) : Nat := if idx ≤ step then size + idx - step else idx - step

/-- The bucket visited after `j` steps from `start`. -/
def path (size step start j : Nat) : Nat := (next size step)^[j] start

variable {size step start : Nat}

@[simp] theorem path_zero : path size step start 0 = start := rfl

theorem path_succ (j : Nat) :
    path size step start (j + 1) = next size step (path size step start j) :=
  Function.iterate_succ_apply' _ _ _

theorem next_bounds {idx : Nat} (positive : 0 < step) (small : step < size)
    (bucket : 1 ≤ idx ∧ idx ≤ size) :
    1 ≤ next size step idx ∧ next size step idx ≤ size := by
  unfold next
  split <;> omega

theorem next_modEq {idx : Nat} (small : step < size) :
    next size step idx + step ≡ idx [MOD size] := by
  unfold next
  split
  · have back : size + idx - step + step = idx + size := by omega
    rw [back]
    exact Nat.add_modEq_right
  · have back : idx - step + step = idx := by omega
    rw [back]

section Prime

variable (positive : 0 < step) (small : step < size) (bucket : 1 ≤ start ∧ start ≤ size)
include positive small bucket

theorem path_bounds (j : Nat) :
    1 ≤ path size step start j ∧ path size step start j ≤ size := by
  induction j with
  | zero => exact bucket
  | succ j ih =>
    rw [path_succ]
    exact next_bounds positive small ih

omit positive bucket in
theorem path_modEq (j : Nat) : path size step start j + j * step ≡ start [MOD size] := by
  induction j with
  | zero => simp [Nat.ModEq.refl]
  | succ j ih =>
    have down : path size step start (j + 1) + step ≡ path size step start j [MOD size] := by
      rw [path_succ]
      exact next_modEq small
    have split : path size step start (j + 1) + (j + 1) * step =
        path size step start (j + 1) + step + j * step := by
      rw [Nat.succ_mul]
      omega
    rw [split]
    exact (down.add_right (j * step)).trans ih

omit bucket in
/-- Equal places are reached a multiple of the size apart. -/
theorem path_inj_modEq (prime : size.Prime) {i j : Nat}
    (same : path size step start i = path size step start j) : i ≡ j [MOD size] := by
  have left : path size step start i + i * step ≡ start [MOD size] := path_modEq small i
  have right : path size step start j + j * step ≡ start [MOD size] := path_modEq small j
  rw [same] at left
  have steps : i * step ≡ j * step [MOD size] :=
    Nat.ModEq.add_left_cancel' _ (left.trans right.symm)
  have coprime : Nat.gcd size step = 1 := by
    apply (Nat.Prime.coprime_iff_not_dvd prime).mpr
    intro divides
    have := Nat.le_of_dvd positive divides
    omega
  exact Nat.ModEq.cancel_right_of_coprime coprime steps

omit bucket in
/-- With a prime number of slots no slot comes twice in a round. -/
theorem path_injOn (prime : size.Prime) {i j : Nat} (left : i < size) (right : j < size)
    (same : path size step start i = path size step start j) : i = j :=
  Nat.ModEq.eq_of_lt_of_lt (path_inj_modEq positive small prime same) left right

/-- With a prime number of slots a round comes to every slot. -/
theorem path_surjective (prime : size.Prime) {slot : Nat} (inside : 1 ≤ slot ∧ slot ≤ size) :
    ∃ j < size, path size step start j = slot := by
  have maps : ∀ j ∈ Finset.range size, path size step start j ∈ Finset.Icc 1 size := by
    intro j _
    exact Finset.mem_Icc.mpr (path_bounds positive small bucket j)
  have injective : Set.InjOn (path size step start) (Finset.range size) := by
    intro i left j right same
    exact path_injOn positive small prime (Finset.mem_range.mp left)
      (Finset.mem_range.mp right) same
  have onto := Finset.surj_on_of_inj_on_of_card_le (fun j _ => path size step start j) maps
    (fun i j left right same => injective left right same) (by simp)
  obtain ⟨j, inRange, visited⟩ := onto slot (Finset.mem_Icc.mpr inside)
  exact ⟨j, Finset.mem_range.mp inRange, visited.symm⟩

theorem path_size : path size step start size = start := by
  have around : path size step start size + size * step ≡ start [MOD size] :=
    path_modEq small size
  have bounds := path_bounds positive small bucket size
  have same : path size step start size ≡ start [MOD size] :=
    Nat.ModEq.trans (by simp [Nat.ModEq]) around
  obtain ⟨low, high⟩ := bucket
  obtain ⟨pathLow, pathHigh⟩ := bounds
  have near : path size step start size - 1 ≡ start - 1 [MOD size] := by
    apply Nat.ModEq.add_right_cancel' 1
    rwa [Nat.sub_add_cancel pathLow, Nat.sub_add_cancel low]
  have equal := Nat.ModEq.eq_of_lt_of_lt near (by omega) (by omega)
  omega

omit bucket in
/-- A probe does not come back to its start within a turn. -/
theorem path_ne_start (prime : size.Prime) {j : Nat} (later : 0 < j) (within : j < size) :
    path size step start j ≠ start := by
  intro back
  have same : path size step start j = path size step start 0 := back
  have := path_injOn positive small prime within (by omega) same
  omega

end Prime

end Probe
