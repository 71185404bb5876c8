import HrppBoot.Lib.Memory

/-!
# Computations with the ranges they access

A computation has a result, unless it is given up, and the ranges of memory that it accesses on the
way. `Keeps` says that all of them lie in one range and that the result is as wanted; its rules are
equivalences, so that they say exactly when a computation stays in the range.
-/

namespace ByteMemory

/-- A result, unless the computation is given up, and the ranges that are accessed. -/
structure Traced (α : Type) where
  result : Option α
  spans : List Span

namespace Traced

variable {α β : Type} {low high : Nat}

/-- A result without an access. -/
def done (a : α) : Traced α := ⟨some a, []⟩

/-- A computation that is given up. -/
def giveUp : Traced α := ⟨none, []⟩

/-- One computation behind another. -/
def andThen (x : Traced α) (f : α → Traced β) : Traced β :=
  match x.result with
  | none => ⟨none, x.spans⟩
  | some a => ⟨(f a).result, x.spans ++ (f a).spans⟩

instance : Monad Traced where
  pure := done
  bind := andThen

/-- Ranges are accessed. -/
def access (spans : List Span) : Traced Unit := ⟨some (), spans⟩

/-- A byte is read. -/
def readByte (m : Memory) (a : Nat) : Traced UInt8 := ⟨some (m a), [⟨a, 1⟩]⟩

/-- Bytes are read. -/
def readBytes (m : Memory) (a n : Nat) : Traced (List UInt8) := ⟨some (m.load a n), [⟨a, n⟩]⟩

/-- Bytes are written. -/
def writeBytes (m : Memory) (a : Nat) (bytes : List UInt8) : Traced Memory :=
  ⟨some (m.store a bytes), [⟨a, bytes.length⟩]⟩

/-- All ranges lie in `[low, high)`, and there is a result as wanted. -/
def Keeps (low high : Nat) (x : Traced α) (wanted : α → Prop) : Prop :=
  (∀ span ∈ x.spans, span.Within low high) ∧ ∃ a, x.result = some a ∧ wanted a

variable {a : Nat} {wanted : α → Prop} {m : Memory}

theorem within_byte : Span.Within ⟨a, 1⟩ low high ↔ low ≤ a ∧ a < high := by
  simp only [Span.Within, Span.Inside]
  omega

@[simp] theorem result_pure (a : α) : (pure a : Traced α).result = some a := rfl

@[simp] theorem result_bind (x : Traced α) (f : α → Traced β) :
    (x >>= f).result = x.result.bind fun a => (f a).result := by
  have unfolded : x >>= f = andThen x f := rfl
  rw [unfolded, andThen]
  cases x.result with
  | none => rfl
  | some a => rfl

@[simp] theorem result_readByte (m : Memory) (a : Nat) : (readByte m a).result = some (m a) := rfl

@[simp] theorem result_readBytes (m : Memory) (a n : Nat) :
    (readBytes m a n).result = some (m.load a n) := rfl

@[simp] theorem result_access (spans : List Span) : (access spans).result = some () := rfl

@[simp] theorem keeps_pure {a : α} :
    Keeps low high (pure a) wanted ↔ wanted a := by
  constructor
  · rintro ⟨-, found, same, holds⟩
    cases same
    exact holds
  · intro holds
    exact ⟨fun span none => absurd none List.not_mem_nil, a, rfl, holds⟩

@[simp] theorem not_keeps_giveUp : ¬Keeps low high giveUp wanted := by
  rintro ⟨-, found, none, -⟩
  cases none

/-- Two computations in a row stay in the range if each does. -/
@[simp] theorem keeps_bind {x : Traced α} {f : α → Traced β} {wanted : β → Prop} :
    Keeps low high (x >>= f) wanted ↔
      Keeps low high x fun a => Keeps low high (f a) wanted := by
  have unfolded : x >>= f = andThen x f := rfl
  rw [unfolded, andThen]
  unfold Keeps
  cases x.result with
  | none =>
    constructor
    · rintro ⟨-, found, none, -⟩
      cases none
    · rintro ⟨-, found, none, -⟩
      cases none
  | some a =>
    dsimp only
    rw [List.forall_mem_append]
    constructor
    · rintro ⟨⟨first, second⟩, rest⟩
      exact ⟨first, a, rfl, second, rest⟩
    · rintro ⟨first, found, same, second, rest⟩
      cases same
      exact ⟨⟨first, second⟩, rest⟩

@[simp] theorem keeps_access {spans : List Span} {wanted : Unit → Prop} :
    Keeps low high (access spans) wanted ↔
      (∀ span ∈ spans, span.Within low high) ∧ wanted () := by
  refine and_congr_right fun _ => ?_
  constructor
  · rintro ⟨⟨⟩, -, holds⟩
    exact holds
  · exact fun holds => ⟨(), rfl, holds⟩

@[simp] theorem keeps_readByte {wanted : UInt8 → Prop} :
    Keeps low high (readByte m a) wanted ↔ (low ≤ a ∧ a < high) ∧ wanted (m a) := by
  rw [← within_byte]
  unfold Keeps readByte
  rw [List.forall_mem_singleton]
  refine and_congr_right fun _ => ?_
  simp only [Option.some.injEq, exists_eq_left']

@[simp] theorem keeps_readBytes {n : Nat} {wanted : List UInt8 → Prop} :
    Keeps low high (readBytes m a n) wanted ↔
      Span.Within ⟨a, n⟩ low high ∧ wanted (m.load a n) := by
  unfold Keeps readBytes
  rw [List.forall_mem_singleton]
  refine and_congr_right fun _ => ?_
  simp only [Option.some.injEq, exists_eq_left']

@[simp] theorem keeps_writeBytes {bytes : List UInt8} {wanted : Memory → Prop} :
    Keeps low high (writeBytes m a bytes) wanted ↔
      Span.Within ⟨a, bytes.length⟩ low high ∧ wanted (m.store a bytes) := by
  unfold Keeps writeBytes
  rw [List.forall_mem_singleton]
  refine and_congr_right fun _ => ?_
  simp only [Option.some.injEq, exists_eq_left']

theorem keeps_congr {x : Traced α} {other : α → Prop}
    (same : ∀ a, x.result = some a → (wanted a ↔ other a)) :
    Keeps low high x wanted ↔ Keeps low high x other :=
  and_congr_right fun _ => exists_congr fun a => and_congr_right fun result => same a result

end Traced

end ByteMemory
