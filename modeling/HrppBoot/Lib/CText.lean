import HrppBoot.Lib.Traced

/-!
# Texts that a zero byte ends

The length of a text in a memory, as far as the memory reaches, and the zero bytes of a range.
-/

namespace ByteMemory

variable {m : Memory} {a n space : Nat}

/-- The length of the text at an address, if one of the next `space` bytes ends it. -/
def Memory.textLength (m : Memory) (a space : Nat) : Option Nat :=
  (m.load a space).findIdx? (· == 0)

/-- How many of the next bytes are zero. -/
def Memory.zeros (m : Memory) (a n : Nat) : Nat := (m.load a n).count 0

/-- A text ends at its first zero. -/
theorem Memory.textLength_eq_some :
    m.textLength a space = some n ↔ n < space ∧ m (a + n) = 0 ∧ ∀ k < n, m (a + k) ≠ 0 := by
  rw [textLength, List.findIdx?_eq_some_iff_getElem]
  simp only [Memory.load, List.length_map, List.length_range, List.getElem_map, List.getElem_range,
    beq_iff_eq, exists_prop]

theorem Memory.textLength_eq_none :
    m.textLength a space = none ↔ ∀ k < space, m (a + k) ≠ 0 := by
  rw [textLength, List.findIdx?_eq_none_iff]
  simp [Memory.load]

theorem Memory.textLength_mono {more : Nat} (le : space ≤ more)
    (text : m.textLength a space = some n) : m.textLength a more = some n := by
  rw [textLength_eq_some] at text ⊢
  exact ⟨Nat.lt_of_lt_of_le text.1 le, text.2⟩

theorem Memory.zeros_add (m : Memory) (a n k : Nat) :
    m.zeros a (n + k) = m.zeros a n + m.zeros (a + n) k := by
  rw [zeros, ← load_append, List.count_append, zeros, zeros]

theorem Memory.zeros_eq_zero : m.zeros a n = 0 ↔ ∀ k < n, m (a + k) ≠ 0 := by
  rw [zeros, List.count_eq_zero]
  simp [Memory.load]

theorem Memory.zeros_text (text : m.textLength a space = some n) : m.zeros a (n + 1) = 1 := by
  obtain ⟨-, ends, inside⟩ := textLength_eq_some.mp text
  have last : m.zeros (a + n) 1 = 1 := by
    rw [zeros, show m.load (a + n) 1 = [m (a + n)] from rfl, ends]
    rfl
  rw [zeros_add, zeros_eq_zero.mpr inside, last]

/-! ## The functions on texts -/

variable {text : List UInt8}

theorem Memory.Holds.textLength (stands : m.Holds a (text ++ [0])) (ended : 0 ∉ text)
    (fits : text.length < space) :
    m.textLength a space = some text.length := by
  obtain ⟨front, last⟩ := (Memory.holds_append _ _ _ _).mp stands
  refine textLength_eq_some.mpr ⟨fits, last 0 Nat.one_pos, fun k less => ?_⟩
  rw [front k less]
  exact fun zero => ended (zero ▸ List.getElem_mem less)

/-- `strlen`, given up where no byte in front of `stop` ends the text: it then reads on behind. -/
def strlen (m : Memory) (a stop : Nat) : Traced Nat :=
  match m.textLength a (stop - a) with
  | some n => do
    Traced.access [⟨a, n + 1⟩]
    pure n
  | none => do
    Traced.access [⟨a, stop - a + 1⟩]
    Traced.giveUp

def strcat (m : Memory) (a stop : Nat) (text : List UInt8) : Traced Memory := do
  let n ← strlen m a stop
  Traced.writeBytes m (a + n) (text ++ [0])

theorem keeps_strlen {low high : Nat} {wanted : Nat → Prop} (stands : m.Holds a (text ++ [0]))
    (ended : 0 ∉ text) (above : low ≤ a) (fits : a + text.length < high) :
    (strlen m a high).Keeps low high wanted ↔ wanted text.length := by
  have inside : Span.Within ⟨a, text.length + 1⟩ low high := .inr ⟨above, fits⟩
  rw [strlen, stands.textLength ended (show text.length < high - a by omega), Traced.keeps_bind,
    Traced.keeps_access, List.forall_mem_singleton, and_iff_right inside, Traced.keeps_pure]

theorem keeps_strcat {low high : Nat} {more : List UInt8} {wanted : Memory → Prop}
    (stands : m.Holds a (text ++ [0])) (ended : 0 ∉ text) (above : low ≤ a)
    (fits : a + text.length < high) :
    (strcat m a high more).Keeps low high wanted ↔
      a + text.length + more.length < high ∧
        wanted (m.store (a + text.length) (more ++ [0])) := by
  rw [strcat, Traced.keeps_bind, keeps_strlen stands ended above fits, Traced.keeps_writeBytes]
  refine and_congr_left fun _ => ?_
  simp only [Span.Within, Span.Inside, List.length_append, List.length_singleton]
  omega

theorem Memory.Holds.store_behind (stands : m.Holds a (text ++ [0])) (more : List UInt8) :
    (m.store (a + text.length) more).Holds a (text ++ more) := by
  have front := ((Memory.holds_append _ _ _ _).mp stands).1
  refine (Memory.holds_append _ _ _ _).mpr ⟨?_, Memory.store_holds _ _ _⟩
  exact front.store_apart (.inl (Nat.le_refl _))

end ByteMemory
