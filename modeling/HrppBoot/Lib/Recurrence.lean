import Mathlib.Data.Fintype.Order

/-!
# Loops that end

A loop takes a state to the next one, or stops; a recursion takes it to several. Where there are
finitely many states, they end exactly if no state on the way leads back to itself.
-/

namespace Recurrence

open Relation

variable {σ β : Type}

/-- One turn of a loop leads from a state to another. -/
def Turn (next : σ → Option σ) (s t : σ) : Prop := next s = some t

/-- The loop stops. -/
inductive Stops (next : σ → Option σ) : σ → Prop where
  | now {s : σ} (last : next s = none) : Stops next s
  | later {s t : σ} (turn : Turn next s t) (rest : Stops next t) : Stops next s

/-- The loop reaches a state that leads back to itself. -/
def Circles (next : σ → Option σ) (s : σ) : Prop :=
  ∃ t, ReflTransGen (Turn next) s t ∧ TransGen (Turn next) t t

variable {next : σ → Option σ} {s t : σ}

/-- There is at most one turn from a state. -/
theorem turn_unique {u : σ} (first : Turn next s t) (second : Turn next s u) : t = u :=
  Option.some.inj (first.symm.trans second)

/-- A recursion along a relation reaches a state that leads back to itself. -/
def Returns (step : σ → σ → Prop) (s : σ) : Prop :=
  ∃ t, ReflTransGen step s t ∧ TransGen step t t

theorem not_returns_of_acc {step : σ → σ → Prop} (ends : Acc (fun t s => step s t) s) :
    ¬Returns step s := by
  induction ends with
  | intro s _ ih =>
    rintro ⟨t, reached, back⟩
    rcases ReflTransGen.cases_head reached with rfl | ⟨u, first, rest⟩
    · obtain ⟨u, first, rest⟩ := TransGen.head'_iff.mp back
      exact ih u first ⟨u, .refl, .tail' rest first⟩
    · exact ih u first ⟨t, rest, back⟩

theorem acc_of_not_returns {step : σ → σ → Prop} (finite : {t | ReflTransGen step s t}.Finite)
    (once : ¬Returns step s) : Acc (fun t s => step s t) s := by
  have := finite.to_subtype
  let behind (t u : {t | ReflTransGen step s t}) : Prop := TransGen step u.1 t.1
  have : IsTrans _ behind := ⟨fun _ _ _ first second => second.trans first⟩
  have : Std.Irrefl behind := ⟨fun t back => once ⟨t.1, t.2, back⟩⟩
  have ordered : WellFounded behind := Finite.wellFounded_of_trans_of_irrefl behind
  have every (t : {t | ReflTransGen step s t}) : Acc (fun t s => step s t) t.1 := by
    induction t using ordered.induction with
    | _ t ih => exact .intro _ fun u first => ih ⟨u, t.2.tail first⟩ (.single first)
  exact every ⟨s, .refl⟩

/-- A run stops exactly from an accessible state. -/
theorem stops_iff_acc : Stops next s ↔ Acc (fun t s => Turn next s t) s := by
  constructor
  · intro stops
    induction stops with
    | now last => exact .intro _ fun t turn => by cases last.symm.trans turn
    | later turn _ ih => exact .intro _ fun t other => turn_unique turn other ▸ ih
  · intro ends
    induction ends with
    | intro s _ ih =>
      cases step : next s with
      | none => exact .now step
      | some t => exact .later step (ih t step)

theorem Stops.not_circles (stops : Stops next s) : ¬Circles next s :=
  not_returns_of_acc (stops_iff_acc.mp stops)

theorem stops_of_not_circles (finite : {t | ReflTransGen (Turn next) s t}.Finite)
    (once : ¬Circles next s) : Stops next s :=
  stops_iff_acc.mpr (acc_of_not_returns finite once)

variable {P : σ → Prop}

/-- A loop that also stops at certain states stops if it would without them, or reaches one. -/
theorem stops_unless_iff [DecidablePred P] :
    Stops (fun s => if P s then none else next s) s ↔
      Stops next s ∨ ∃ t, ReflTransGen (Turn next) s t ∧ P t := by
  constructor
  · intro stops
    induction stops with
    | @now s last =>
      by_cases here : P s
      · exact .inr ⟨s, .refl, here⟩
      · rw [if_neg here] at last
        exact .inl (.now last)
    | @later s t turn _ ih =>
      have here : ¬P s := fun here => by cases (if_pos here).symm.trans turn
      have step : Turn next s t := (if_neg here).symm.trans turn
      rcases ih with rest | ⟨u, reached, found⟩
      · exact .inl (.later step rest)
      · exact .inr ⟨u, .head step reached, found⟩
  · rintro (stops | ⟨t, reached, found⟩)
    · induction stops with
      | @now s last =>
        refine .now ?_
        split
        · rfl
        · exact last
      | @later s t turn _ ih =>
        by_cases here : P s
        · exact .now (if_pos here)
        · exact .later ((if_neg here).trans turn) ih
    · induction reached using ReflTransGen.head_induction_on with
      | refl => exact .now (if_pos found)
      | @head s u turn _ ih =>
        by_cases here : P s
        · exact .now (if_pos here)
        · exact .later ((if_neg here).trans turn) ih

/-- Turns that only a part of the state decides stop when those of the part do. -/
theorem stops_map_iff {τ : Type} {other : τ → Option τ} (part : σ → τ)
    (same : ∀ s, (next s).map part = other (part s)) : Stops next s ↔ Stops other (part s) := by
  constructor
  · intro stops
    induction stops with
    | @now s last =>
      refine .now ?_
      rw [← same, last]
      rfl
    | @later s t turn _ ih =>
      refine .later ?_ ih
      rw [Turn, ← same, turn]
      rfl
  · intro stops
    generalize start : part s = p at stops
    induction stops generalizing s with
    | now last =>
      subst start
      rw [← same, Option.map_eq_none_iff] at last
      exact .now last
    | later turn _ ih =>
      subst start
      rw [Turn, ← same, Option.map_eq_some_iff] at turn
      obtain ⟨t, step, there⟩ := turn
      exact .later step (ih there)

/-- What each turn keeps holds in every state reached. -/
theorem reached_induct (first : P s) (kept : ∀ t u, P t → Turn next t u → P u) {t : σ}
    (reached : ReflTransGen (Turn next) s t) :
    P t := by
  induction reached with
  | refl => exact first
  | tail _ turn ih => exact kept _ _ ih turn

/-- Where the reachable states are finite, turns stop unless they circle. -/
theorem stops_iff_not_circles (finite : {t | P t}.Finite) (first : P s)
    (kept : ∀ t u, P t → Turn next t u → P u) : Stops next s ↔ ¬Circles next s :=
  ⟨Stops.not_circles,
    stops_of_not_circles (finite.subset fun _ reached => reached_induct first kept reached)⟩

/-- A function with fuel that runs a loop: it has a result when the loop stops before the fuel is
used up. -/
structure Fuelled (next : σ → Option σ) (run : Nat → σ → Option β) : Prop where
  empty : ∀ s, run 0 s = none
  last : ∀ s, next s = none → ∃ result, ∀ n, run (n + 1) s = some result
  turn : ∀ n s t, next s = some t → run (n + 1) s = run n t

variable {run : Nat → σ → Option β}

theorem Fuelled.ends_iff (fuelled : Fuelled next run) : (∃ n, run n s ≠ none) ↔ Stops next s := by
  constructor
  · rintro ⟨n, result⟩
    induction n generalizing s with
    | zero => exact absurd (fuelled.empty s) result
    | succ n ih =>
      cases step : next s with
      | none => exact .now step
      | some t =>
        rw [fuelled.turn n s t step] at result
        exact .later step (ih result)
  · intro stops
    induction stops with
    | now done =>
      obtain ⟨result, same⟩ := fuelled.last _ done
      exact ⟨1, by rw [same 0]; exact Option.some_ne_none result⟩
    | later step _ ih =>
      obtain ⟨n, result⟩ := ih
      exact ⟨n + 1, by rwa [fuelled.turn n _ _ step]⟩

/-- A result does not change with more fuel. -/
theorem Fuelled.mono (fuelled : Fuelled next run) {n m : Nat} (more : n ≤ m) {result : β}
    (ran : run n s = some result) : run m s = some result := by
  induction n generalizing s m with
  | zero =>
    rw [fuelled.empty] at ran
    cases ran
  | succ n ih =>
    obtain ⟨m, rfl⟩ : ∃ k, m = k + 1 := ⟨m - 1, by omega⟩
    cases step : next s with
    | none =>
      obtain ⟨other, same⟩ := fuelled.last s step
      rw [same n] at ran
      rw [same m, ran]
    | some t =>
      rw [fuelled.turn n s t step] at ran
      rw [fuelled.turn m s t step]
      exact ih (by omega) ran

/-- A run settles on one result exactly if its turns stop. -/
theorem Fuelled.settles_iff (fuelled : Fuelled next run) :
    (∃ N result, ∀ n ≥ N, run n s = some result) ↔ Stops next s := by
  rw [← fuelled.ends_iff]
  constructor
  · rintro ⟨N, result, runs⟩
    exact ⟨N, by rw [runs N (Nat.le_refl N)]; exact Option.some_ne_none result⟩
  · rintro ⟨N, ran⟩
    obtain ⟨result, ran⟩ := Option.ne_none_iff_exists'.mp ran
    exact ⟨N, result, fun n more => fuelled.mono more ran⟩

/-! ## Loops with results -/

/-- From some fuel on there is one result. -/
def Settles (run : Nat → Option β) : Prop := ∃ N result, ∀ n ≥ N, run n = some result

/-- A loop with fuel: a turn has a result, or it leads to the next state. -/
def loop (step : σ → β ⊕ σ) : Nat → σ → Option β
  | 0, _ => none
  | n + 1, s =>
    match step s with
    | .inl result => some result
    | .inr t => loop step n t

/-- The next state of such a loop. -/
def onward (step : σ → β ⊕ σ) (s : σ) : Option σ := (step s).getRight?

variable {step : σ → β ⊕ σ}

theorem turn_onward : Turn (onward step) s t ↔ step s = .inr t := Sum.getRight?_eq_some_iff

theorem loop_fuelled (step : σ → β ⊕ σ) : Fuelled (onward step) (loop step) := by
  refine ⟨fun _ => rfl, ?_, ?_⟩
  · intro s last
    obtain ⟨result, same⟩ := Sum.isLeft_iff.mp (Sum.getRight?_eq_none_iff.mp last)
    exact ⟨result, fun n => by rw [loop, same]⟩
  · intro n s t turn
    rw [loop, turn_onward.mp turn]

/-- On finitely many states a loop settles unless its turns circle. -/
theorem loop_settles_iff [Finite σ] :
    Settles (fun n => loop step n s) ↔ ¬Circles (onward step) s :=
  (loop_fuelled step).settles_iff.trans
    (stops_iff_not_circles (P := fun _ => True) (Set.toFinite _) trivial fun _ _ _ _ => trivial)

/-- A loop that returns has a last turn. -/
theorem exists_last_of_loop {n : Nat} {result : β} (ran : loop step n s = some result) :
    ∃ t, ReflTransGen (Turn (onward step)) s t ∧ step t = .inl result := by
  induction n generalizing s with
  | zero => cases ran
  | succ n ih =>
    rw [loop] at ran
    cases turn : step s with
    | inl last =>
      rw [turn] at ran
      obtain rfl := Option.some.inj ran
      exact ⟨s, .refl, turn⟩
    | inr t =>
      rw [turn] at ran
      obtain ⟨u, reached, last⟩ := ih ran
      exact ⟨u, .head (turn_onward.mpr turn) reached, last⟩

/-- A loop that reaches a last state returns its result, given fuel. -/
theorem loop_of_last {result : β} (reached : ReflTransGen (Turn (onward step)) s t)
    (last : step t = .inl result) : ∃ N, ∀ n ≥ N, loop step n s = some result := by
  have ends : ∃ n, loop step n s = some result := by
    induction reached using ReflTransGen.head_induction_on with
    | refl => exact ⟨1, by rw [loop, last]⟩
    | head turn _ ih =>
      obtain ⟨n, ran⟩ := ih
      exact ⟨n + 1, by rw [loop, turn_onward.mp turn]; exact ran⟩
  obtain ⟨N, ran⟩ := ends
  exact ⟨N, fun n more => (loop_fuelled step).mono more ran⟩

end Recurrence
