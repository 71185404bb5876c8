import Mathlib.Data.UInt
import Mathlib.Tactic.Linarith

/-!
# Byte-addressed memory

A memory is a total map from addresses to bytes. Block operations (fill, copy, store) are
single updates of that map, so a transfer of any length costs one definition. Each operation
has one lemma for the bytes it writes and one for the bytes it leaves alone; `Agree` and
`Holds` carry these facts to whole ranges. Words are little-endian.
-/

namespace ByteMemory

/-- Contents of a byte-addressed memory. -/
abbrev Memory := Nat → UInt8

/-- A range of addresses: where it starts and how many bytes it has. -/
structure Span where
  start : Nat
  length : Nat
  deriving DecidableEq, Repr

namespace Span

/-- The whole range lies in `[low, high)`. -/
def Inside (span : Span) (low high : Nat) : Prop :=
  low ≤ span.start ∧ span.start + span.length ≤ high

instance (span : Span) (low high : Nat) : Decidable (span.Inside low high) :=
  inferInstanceAs (Decidable (_ ∧ _))

/-- The range is empty or lies in `[low, high)`: none of its bytes is outside. -/
def Within (span : Span) (low high : Nat) : Prop :=
  span.length = 0 ∨ span.Inside low high

instance (span : Span) (low high : Nat) : Decidable (span.Within low high) :=
  inferInstanceAs (Decidable (_ ∨ _))

end Span

namespace Memory

/-- A memory of zeros. -/
def blank : Memory := fun _ => 0

/-- `memset`: `count` bytes from `dst` become `value`. -/
def fill (m : Memory) (dst count : Nat) (value : UInt8) : Memory :=
  fun a => if dst ≤ a ∧ a < dst + count then value else m a

/-- `memcpy`: `count` bytes from `dst` become the bytes `src` held before the copy. -/
def copy (m : Memory) (dst src count : Nat) : Memory :=
  fun a => if dst ≤ a ∧ a < dst + count then m (src + (a - dst)) else m a

/-- `count` bytes from `dst` become those of a source. -/
def place (m : Memory) (dst count : Nat) (source : Nat → UInt8) : Memory :=
  fun a => if dst ≤ a ∧ a < dst + count then source (a - dst) else m a

/-- Place a byte string at `dst`. -/
def store (m : Memory) (dst : Nat) (bytes : List UInt8) : Memory :=
  fun a => if dst ≤ a ∧ a < dst + bytes.length then bytes.getD (a - dst) 0 else m a

/-- The bytes of `count` addresses from `src`. -/
def load (m : Memory) (src count : Nat) : List UInt8 :=
  (List.range count).map fun i => m (src + i)

/-- Two memories have the same bytes at the addresses of `region`. -/
def Agree (region : Nat → Prop) (left right : Memory) : Prop :=
  ∀ a, region a → left a = right a

/-- The byte string stands in memory from `address` on. -/
def Holds (m : Memory) (address : Nat) (bytes : List UInt8) : Prop :=
  ∀ i (inside : i < bytes.length), m (address + i) = bytes[i]

section Bytes

variable (m : Memory) (dst src count a : Nat) (value : UInt8) (bytes : List UInt8)

theorem fill_inside (inside : dst ≤ a ∧ a < dst + count) : m.fill dst count value a = value := by
  simp [fill, inside]

theorem fill_outside (outside : a < dst ∨ dst + count ≤ a) :
    m.fill dst count value a = m a := by
  rw [fill, if_neg (by omega)]

theorem copy_inside (inside : dst ≤ a ∧ a < dst + count) :
    m.copy dst src count a = m (src + (a - dst)) := by
  simp [copy, inside]

theorem copy_outside (outside : a < dst ∨ dst + count ≤ a) :
    m.copy dst src count a = m a := by
  rw [copy, if_neg (by omega)]

/-- A store changes nothing outside its range. -/
theorem store_outside (outside : a < dst ∨ dst + bytes.length ≤ a) :
    m.store dst bytes a = m a := by
  rw [store, if_neg (by omega)]

/-- What is stored stands there. -/
theorem store_holds : (m.store dst bytes).Holds dst bytes := by
  intro i inside
  have range : dst ≤ dst + i ∧ dst + i < dst + bytes.length := by omega
  rw [store, if_pos range, Nat.add_sub_cancel_left]
  simp [List.getD, inside]

theorem store_inside (inside : dst ≤ a ∧ a < dst + bytes.length) :
    m.store dst bytes a = bytes.getD (a - dst) 0 := by
  rw [store, if_pos inside]

theorem place_zero (source : Nat → UInt8) : m.place dst 0 source = m := by
  funext a
  rw [place, if_neg (by omega)]

theorem place_place {more : Nat} {first second whole : Nat → UInt8}
    (head : ∀ j < count, whole j = first j) (tail : ∀ j < more, whole (count + j) = second j) :
    (m.place dst count first).place (dst + count) more second = m.place dst (count + more) whole := by
  funext a
  simp only [place]
  by_cases before : a < dst
  · rw [if_neg (by omega), if_neg (by omega), if_neg (by omega)]
  by_cases front : a < dst + count
  · rw [if_neg (by omega), if_pos (by omega), if_pos (by omega), head _ (by omega)]
  by_cases back : a < dst + count + more
  · have split : a - dst = count + (a - (dst + count)) := by omega
    rw [if_pos (by omega), if_pos (by omega), split, tail _ (by omega)]
  · rw [if_neg (by omega), if_neg (by omega), if_neg (by omega)]

theorem place_congr {source other : Nat → UInt8} (same : ∀ j < count, source j = other j) :
    m.place dst count source = m.place dst count other := by
  funext a
  simp only [place]
  split
  · exact same _ (by omega)
  · rfl

theorem copy_zero : m.copy dst src 0 = m := by
  funext a
  exact copy_outside m dst src 0 a (by omega)

theorem copy_append (more : Nat) (disjoint : src + count + more ≤ dst ∨ dst + count ≤ src) :
    (m.copy dst src count).copy (dst + count) (src + count) more =
      m.copy dst src (count + more) := by
  funext a
  by_cases second : dst + count ≤ a ∧ a < dst + count + more
  · rw [copy_inside _ _ _ _ _ second, copy_inside m _ _ _ a (by omega),
      copy_outside m _ _ _ _ (by omega)]
    congr 1
    omega
  · rw [copy_outside _ _ _ _ _ (by omega)]
    by_cases first : dst ≤ a ∧ a < dst + count
    · rw [copy_inside m _ _ _ a first, copy_inside m _ _ _ a (by omega)]
    · rw [copy_outside m _ _ _ a (by omega), copy_outside m _ _ _ a (by omega)]

end Bytes

/-- Two strings stand in a row if each stands in its place. -/
theorem holds_append (m : Memory) (address : Nat) (first second : List UInt8) :
    m.Holds address (first ++ second) ↔
      m.Holds address first ∧ m.Holds (address + first.length) second := by
  constructor
  · intro whole
    refine ⟨fun i inside => ?_, fun i inside => ?_⟩
    · rw [whole i (by simp; omega), List.getElem_append_left inside]
    · rw [Nat.add_assoc, whole (first.length + i) (by simp; omega),
        List.getElem_append_right (by omega)]
      simp
  · rintro ⟨left, right⟩ i inside
    by_cases early : i < first.length
    · rw [left i early, List.getElem_append_left early]
    · have late : i - first.length < second.length := by
        simp only [List.length_append] at inside
        omega
      rw [List.getElem_append_right (by omega), ← right (i - first.length) late]
      congr 1
      omega

variable {address : Nat}

/-- What stands in a memory depends on its own bytes only. -/
theorem Holds.congr {left right : Memory} {bytes : List UInt8} (stands : left.Holds address bytes)
    (same : Agree (fun a => address ≤ a ∧ a < address + bytes.length) left right) :
    right.Holds address bytes := by
  intro i inside
  rw [← same (address + i) (by omega)]
  exact stands i inside

theorem Holds.fill {m : Memory} {bytes : List UInt8}
    (stands : m.Holds address bytes) {dst count : Nat} {value : UInt8}
    (spared : ∀ i (inside : i < bytes.length), dst ≤ address + i → address + i < dst + count →
      bytes[i] = value) :
    (m.fill dst count value).Holds address bytes := by
  intro i inside
  by_cases hit : dst ≤ address + i ∧ address + i < dst + count
  · rw [fill_inside _ _ _ _ _ hit, spared i inside hit.1 hit.2]
  · rw [fill_outside _ _ _ _ _ (by omega), stands i inside]

theorem Holds.load {m : Memory} {bytes : List UInt8} (stands : m.Holds address bytes)
    : m.load address bytes.length = bytes := by
  refine List.ext_getElem (by simp [Memory.load]) fun i left right => ?_
  simp only [Memory.load, List.getElem_map, List.getElem_range]
  exact stands i right

theorem Holds.store_apart {m : Memory} {dst : Nat} {bytes new : List UInt8}
    (stands : m.Holds address bytes)
    (apart : address + bytes.length ≤ dst ∨ dst + new.length ≤ address) :
    (m.store dst new).Holds address bytes := by
  apply stands.congr
  intro a inside
  exact (store_outside _ _ _ _ (by omega)).symm

/-- Copying bytes stores what stands there. -/
theorem Holds.copy_eq_store {m : Memory} {src : Nat} {bytes : List UInt8}
    (stands : m.Holds src bytes) (dst : Nat) :
    m.copy dst src bytes.length = m.store dst bytes := by
  funext a
  by_cases inside : dst ≤ a ∧ a < dst + bytes.length
  · have short : a - dst < bytes.length := by omega
    rw [copy_inside _ _ _ _ _ inside, store_inside _ _ _ _ inside, stands (a - dst) short]
    simp [List.getD, short]
  · rw [copy_outside _ _ _ _ _ (by omega), store_outside _ _ _ _ (by omega)]

end Memory

theorem Memory.load_append (m : Memory) (a n k : Nat) :
    m.load a n ++ m.load (a + n) k = m.load a (n + k) := by
  refine List.ext_getElem (by simp [Memory.load]) fun i left right => ?_
  by_cases early : i < n
  · rw [List.getElem_append_left (by simpa [Memory.load] using early)]
    simp [Memory.load]
  · rw [List.getElem_append_right (by simpa [Memory.load] using early)]
    simp only [Memory.load, List.length_map, List.length_range, List.getElem_map,
      List.getElem_range]
    congr 1
    omega

theorem Memory.load_succ (m : Memory) (a n : Nat) :
    m.load a (n + 1) = m a :: m.load (a + 1) n := by
  rw [Nat.add_comm n 1, ← Memory.load_append]
  rfl

variable {left right : Memory} {n : Nat}

theorem Memory.load_eq_load {a b : Nat} (same : ∀ i < n, left (a + i) = right (b + i))
    : left.load a n = right.load b n :=
  List.map_congr_left fun i inside => same i (List.mem_range.mp inside)

theorem Memory.load_congr {a : Nat} (same : Memory.Agree (fun b => a ≤ b ∧ b < a + n) left right) :
    left.load a n = right.load a n :=
  Memory.load_eq_load fun i inside => same (a + i) ⟨by omega, by omega⟩

theorem Memory.holds_load (m : Memory) (a n : Nat) : m.Holds a (m.load a n) :=
  fun i inside => by simp [Memory.load]

@[simp] theorem Memory.length_load (m : Memory) (a n : Nat) : (m.load a n).length = n := by
  simp [Memory.load]

theorem Memory.store_load (m source : Memory) {dst src a : Nat} (inside : dst ≤ a ∧ a < dst + n) :
    m.store dst (source.load src n) a = source (src + (a - dst)) := by
  have within : a - dst < n := by omega
  rw [Memory.store_inside _ _ _ _ (by rwa [Memory.length_load])]
  simp [Memory.load, List.getD, within]

theorem Memory.take_load (m : Memory) (a n k : Nat) : (m.load a n).take k = m.load a (min k n) := by
  simp [Memory.load, ← List.map_take, List.take_range]

theorem Memory.drop_load (m : Memory) (a n k : Nat) :
    (m.load a n).drop k = m.load (a + k) (n - k) := by
  refine List.ext_getElem (by simp) fun i left right => ?_
  simp [Memory.load, Nat.add_assoc]

@[simp] theorem Memory.store_nil (m : Memory) (dst : Nat) : m.store dst [] = m := by
  funext a
  exact Memory.store_outside m dst a [] (by simp; omega)

theorem Memory.store_append (m : Memory) (dst : Nat) (first second : List UInt8) :
    (m.store dst first).store (dst + first.length) second = m.store dst (first ++ second) := by
  funext a
  simp only [Memory.store, List.length_append, List.getD_eq_getElem?_getD]
  by_cases later : dst + first.length ≤ a ∧ a < dst + first.length + second.length
  · rw [if_pos later, if_pos (by omega), List.getElem?_append_right (by omega), Nat.sub_sub]
  · rw [if_neg later]
    by_cases early : dst ≤ a ∧ a < dst + first.length
    · rw [if_pos early, if_pos (by omega), List.getElem?_append_left (by omega)]
    · rw [if_neg early, if_neg (by omega)]

/-- The value of the little-endian half-word at an address. -/
def Memory.half (m : Memory) (a : Nat) : Nat := (m a).toNat + 256 * (m (a + 1)).toNat

theorem Memory.half_lt (m : Memory) (a : Nat) : m.half a < 65536 := by
  have low := (m a).toNat_lt
  have high := (m (a + 1)).toNat_lt
  unfold Memory.half
  omega

/-- Place a half-word, least significant byte first. -/
def Memory.storeHalf (m : Memory) (a value : Nat) : Memory :=
  m.store a [UInt8.ofNat value, UInt8.ofNat (value / 256)]

theorem Memory.half_storeHalf (m : Memory) (a : Nat) {value : Nat} (bound : value < 65536) :
    (m.storeHalf a value).half a = value := by
  simp only [Memory.half, Memory.storeHalf, Memory.store, List.length_cons, List.length_nil]
  rw [if_pos (by omega), if_pos (by omega)]
  simp only [Nat.sub_self, List.getD_cons_zero, Nat.add_sub_cancel_left, List.getD_cons_succ,
    UInt8.toNat_ofNat']
  omega

theorem Memory.storeHalf_outside (m : Memory) (a value : Nat) {b : Nat}
    (outside : b < a ∨ a + 2 ≤ b) : m.storeHalf a value b = m b :=
  Memory.store_outside m a b _ (by simpa using outside)

theorem Memory.half_congr {a : Nat} (low : left a = right a) (high : left (a + 1) = right (a + 1))
    : left.half a = right.half a := by
  rw [Memory.half, Memory.half, low, high]

/-- The word whose bytes, least significant first, are the arguments. -/
def le32 (b0 b1 b2 b3 : UInt8) : UInt32 :=
  UInt32.ofNat (b0.toNat + 256 * b1.toNat + 65536 * b2.toNat + 16777216 * b3.toNat)

/-- The bytes of a word, least significant first. -/
def le32Bytes (word : UInt32) : List UInt8 :=
  [UInt8.ofNat word.toNat, UInt8.ofNat (word.toNat / 256), UInt8.ofNat (word.toNat / 65536),
    UInt8.ofNat (word.toNat / 16777216)]

@[simp] theorem le32Bytes_length (word : UInt32) : (le32Bytes word).length = 4 := rfl

/-- The number of four bytes, the lowest first. -/
theorem le32_toNat (b0 b1 b2 b3 : UInt8) : (le32 b0 b1 b2 b3).toNat =
    b0.toNat + 256 * b1.toNat + 65536 * b2.toNat + 16777216 * b3.toNat := by
  have h0 := b0.toNat_lt
  have h1 := b1.toNat_lt
  have h2 := b2.toNat_lt
  have h3 := b3.toNat_lt
  rw [le32, UInt32.toNat_ofNat']
  exact Nat.mod_eq_of_lt (by omega)

/-- The little-endian word at an address. -/
def Memory.word32 (m : Memory) (a : Nat) : UInt32 := le32 (m a) (m (a + 1)) (m (a + 2)) (m (a + 3))

theorem Memory.word32_congr {a : Nat} (same : Memory.Agree (fun b => a ≤ b ∧ b < a + 4) left right)
    :
    left.word32 a = right.word32 a := by
  simp only [Memory.word32, same a (by omega), same (a + 1) (by omega), same (a + 2) (by omega),
    same (a + 3) (by omega)]

theorem Memory.Holds.word32 {m : Memory} {a : Nat} {word : UInt32}
    (stands : m.Holds a (le32Bytes word)) : m.word32 a = word := by
  have b0 := stands 0 (by simp)
  have b1 := stands 1 (by simp)
  have b2 := stands 2 (by simp)
  have b3 := stands 3 (by simp)
  have bound := word.toNat_lt
  apply UInt32.toNat.inj
  rw [Memory.word32, le32_toNat, b1, b2, b3, show m a = _ from b0]
  simp only [le32Bytes, List.getElem_cons_zero, List.getElem_cons_succ, UInt8.toNat_ofNat']
  omega

end ByteMemory
