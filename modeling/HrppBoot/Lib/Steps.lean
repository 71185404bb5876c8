import Mathlib.Order.Defs.Unbundled

/-!
# Computations on a state

A computation takes a state to a value and a state, or has no result. `Keeps` says that a relation
holds between the states before and after; for a relation that is reflexive and transitive it is put
together from the parts of a computation.
-/

namespace Steps

variable {σ α β : Type}

/-- A computation on a state. -/
abbrev Comp (σ α : Type) := StateT σ Option α

/-- Steps in a row up to the first that does not return zero, and what it returned. -/
def firstFailure : List (Comp σ Int) → Comp σ Int
  | [] => pure 0
  | step :: rest => do
    let ret ← step
    if ret = 0 then firstFailure rest else pure ret

variable {s t : σ}

theorem bind_some {m : Comp σ α} {f : α → Comp σ β} {b : β} :
    (m >>= f) s = some (b, t) ↔ ∃ a between, m s = some (a, between) ∧
    f a between = some (b, t) := by
  change ((m s).bind fun result => f result.1 result.2) = some (b, t) ↔ _
  rw [Option.bind_eq_some_iff]
  exact ⟨fun ⟨result, first, second⟩ => ⟨result.1, result.2, first, second⟩,
    fun ⟨a, between, first, second⟩ => ⟨(a, between), first, second⟩⟩

theorem pure_some {a b : α} : (pure a : Comp σ α) s = some (b, t) ↔ a = b ∧ s = t := by
  change some (a, s) = some (b, t) ↔ _
  rw [Option.some.injEq, Prod.mk.injEq]

theorem get_some {a : σ} : (get : Comp σ σ) s = some (a, t) ↔ s = a ∧ s = t := pure_some

theorem modify_some {f : σ → σ} {u : PUnit} :
    (modify f : Comp σ PUnit) s = some (u, t) ↔ f s = t := by
  change some (PUnit.unit, f s) = some (u, t) ↔ _
  rw [Option.some.injEq, Prod.mk.injEq]
  exact and_iff_right rfl

theorem lift_some {value : Option α} {a : α} :
    (liftM value : Comp σ α) s = some (a, t) ↔ value = some a ∧ s = t := by
  change (value.bind fun found => some (found, s)) = some (a, t) ↔ _
  rw [Option.bind_eq_some_iff]
  constructor
  · rintro ⟨found, known, same⟩
    rw [Option.some.injEq, Prod.mk.injEq] at same
    exact ⟨by rw [known, same.1], same.2⟩
  · rintro ⟨known, rfl⟩
    exact ⟨a, known, rfl⟩

/-- From a state with a property, a relation holds between the states before and after. -/
def Keeps (P : σ → Prop) (R : σ → σ → Prop) (m : Comp σ α) : Prop :=
  ∀ s a t, P s → m s = some (a, t) → R s t

section Keeps

variable {P : σ → Prop} {R : σ → σ → Prop}

theorem keeps_pure [Std.Refl R] (a : α) : Keeps P R (pure a : Comp σ α) := by
  intro s b t _ ran
  obtain ⟨-, rfl⟩ := pure_some.mp ran
  exact Std.Refl.refl s

/-- No step takes the trivial property away. -/
theorem anytime (s t : σ) (_ : True) (_ : R s t) : True := trivial

/-- A relation that two computations keep is kept by them in a row. -/
theorem keeps_bind [IsTrans σ R] (stable : ∀ s t, P s → R s t → P t) {m : Comp σ α}
    {f : α → Comp σ β} (first : Keeps P R m) (second : ∀ a, Keeps P R (f a)) :
    Keeps P R (m >>= f) := by
  intro s b t holds ran
  obtain ⟨a, between, ranFirst, ranSecond⟩ := bind_some.mp ran
  have kept := first s a between holds ranFirst
  exact IsTrans.trans _ _ _ kept (second a between b t (stable s between holds kept) ranSecond)

theorem keeps_modify {f : σ → σ} (kept : ∀ s, P s → R s (f s)) :
    Keeps P R (modify f : Comp σ PUnit) := by
  intro s u t holds ran
  obtain rfl := modify_some.mp ran
  exact kept s holds

theorem keeps_get [Std.Refl R] : Keeps P R (get : Comp σ σ) := by
  intro s a t _ ran
  obtain ⟨-, rfl⟩ := get_some.mp ran
  exact Std.Refl.refl s

theorem keeps_lift [Std.Refl R] (value : Option α) : Keeps P R (liftM value : Comp σ α) := by
  intro s a t _ ran
  obtain ⟨-, rfl⟩ := lift_some.mp ran
  exact Std.Refl.refl s

theorem keeps_ite {c : Prop} [Decidable c] {first second : Comp σ α} (yes : Keeps P R first)
    (no : Keeps P R second) : Keeps P R (if c then first else second) := by
  split
  · exact yes
  · exact no

variable {steps : List (Comp σ Int)}

theorem keeps_firstFailure [Std.Refl R] [IsTrans σ R] (stable : ∀ s t, P s → R s t → P t)
    (each : ∀ step ∈ steps, Keeps P R step) :
    Keeps P R (firstFailure steps) := by
  induction steps with
  | nil => exact keeps_pure 0
  | cons step rest ih =>
    apply keeps_bind stable (each step List.mem_cons_self)
    intro ret
    apply keeps_ite
    · exact ih fun other member => each other (List.mem_cons_of_mem step member)
    · exact keeps_pure ret

theorem Keeps.anywhere {m : Comp σ α} (kept : Keeps (fun _ => True) R m) : Keeps P R m :=
  fun s a t _ ran => kept s a t trivial ran

theorem keeps_firstFailure_last {less : σ → σ → Prop} [Std.Refl R] [IsTrans σ R]
    (stable : ∀ s t, P s → R s t → P t) (sub : ∀ s t, R s t → less s t)
    (trans : ∀ s t u, R s t → less t u → less s u) {last : Comp σ Int}
    (each : ∀ step ∈ steps, Keeps P R step) (final : Keeps P less last) :
    Keeps P less (firstFailure (steps ++ [last])) := by
  induction steps with
  | nil =>
    intro s a t holds ran
    obtain ⟨ret, between, ranLast, ranRest⟩ := bind_some.mp ran
    have same : between = t := by
      split at ranRest
      · exact (pure_some.mp ranRest).2
      · exact (pure_some.mp ranRest).2
    subst same
    exact final s ret between holds ranLast
  | cons step rest ih =>
    intro s a t holds ran
    obtain ⟨ret, between, ranFirst, ranRest⟩ := bind_some.mp ran
    have kept := each step List.mem_cons_self s ret between holds ranFirst
    split at ranRest
    · have later := ih fun other member => each other (List.mem_cons_of_mem step member)
      exact trans s between t kept (later between a t (stable s between holds kept) ranRest)
    · obtain ⟨-, rfl⟩ := pure_some.mp ranRest
      exact sub s between kept

end Keeps

end Steps
