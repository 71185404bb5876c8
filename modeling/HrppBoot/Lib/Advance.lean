import HrppBoot.Lib.Recurrence
import Mathlib.Data.Nat.ModEq

/-!
# Loops that move on

Each turn of a loop advances its position by some amount, and positions are counted modulo a round.
A turn that does not advance leaves the state as it is. Such a loop ends exactly if every turn on
the way advances, and it does not come back to a state by full rounds.
-/

namespace Recurrence

open Relation

variable {σ : Type}

/-- Turns from a state to another, and how far they advance in all. -/
inductive Way (next : σ → Option σ) (advance : σ → Nat) : σ → σ → Nat → Prop where
  | here (s : σ) : Way next advance s s 0
  | on {s t u : σ} {n : Nat} (turn : Turn next s t) (rest : Way next advance t u n) :
      Way next advance s u (advance s + n)

/-- The loop moves on from a state. -/
structure MovesOn (next : σ → Option σ) (advance : σ → Nat) (round : Nat) (s : σ) : Prop where
  /-- Every turn on the way advances. -/
  advances : ∀ t u n, Way next advance s t n → Turn next t u → advance t ≠ 0
  /-- No state on the way comes back by full rounds. -/
  once : ∀ t n k, Way next advance s t n → ¬Way next advance t t (round * (k + 1))

variable {next : σ → Option σ} {advance : σ → Nat} {s t u : σ} {n m : Nat}

/-- A way is a sequence of turns. -/
theorem Way.reached (way : Way next advance s t n) : ReflTransGen (Turn next) s t := by
  induction way with
  | here s => exact .refl
  | on turn _ ih => exact .head turn ih

/-- Every state that is reached has a way to it. -/
theorem exists_way (advance : σ → Nat) (reached : ReflTransGen (Turn next) s t) :
    ∃ n, Way next advance s t n := by
  induction reached using ReflTransGen.head_induction_on with
  | refl => exact ⟨0, .here t⟩
  | head turn _ ih =>
    obtain ⟨n, way⟩ := ih
    exact ⟨_, .on turn way⟩

/-- A way that advances has a turn. -/
theorem Way.returns (way : Way next advance s s n) (moved : 0 < n) : TransGen (Turn next) s s := by
  cases way with
  | here => exact absurd moved (Nat.lt_irrefl 0)
  | on turn rest => exact .head' turn rest.reached

/-- What holds of the first state and is kept by a turn holds of every state on the way. -/
theorem Way.induct {P : σ → Prop} (way : Way next advance s t n) (first : P s)
    (kept : ∀ t u, P t → Turn next t u → P u) : P t :=
  reached_induct first kept way.reached

/-- A way moves the position by what it advances, up to full rounds. -/
theorem Way.position {P : σ → Prop} {position : σ → Nat} {round : Nat}
    (way : Way next advance s t n) (first : P s) (kept : ∀ t u, P t → Turn next t u → P u)
    (moved : ∀ t u, P t → Turn next t u → position u ≡ position t + advance t [MOD round]) :
    position t ≡ position s + n [MOD round] := by
  induction way with
  | here s => exact Nat.ModEq.refl _
  | @on s t u n turn _ ih =>
    rw [← Nat.add_assoc]
    exact (ih (kept _ _ first turn)).trans ((moved _ _ first turn).add_right n)

/-- A loop over finitely many states ends exactly if it moves on. -/
theorem stops_iff_movesOn (P : σ → Prop) (position : σ → Nat) {round : Nat}
    (finite : {t | P t}.Finite) (some : 0 < round) (first : P s)
    (kept : ∀ t u, P t → Turn next t u → P u)
    (moved : ∀ t u, P t → Turn next t u → position u ≡ position t + advance t [MOD round])
    (still : ∀ t u, P t → Turn next t u → advance t = 0 → u = t) :
    Stops next s ↔ MovesOn next advance round s := by
  rw [stops_iff_not_circles finite first kept]
  constructor
  · intro straight
    refine ⟨fun t u n way turn rests => straight ⟨t, way.reached, ?_⟩,
      fun t n k way back => straight ⟨t, way.reached, back.returns (Nat.mul_pos some k.succ_pos)⟩⟩
    obtain rfl := still t u (way.induct first kept) turn rests
    exact .single turn
  · rintro moves ⟨t, reached, returns⟩
    obtain ⟨n, way⟩ := exists_way advance reached
    obtain ⟨u, turn, rest⟩ := TransGen.head'_iff.mp returns
    obtain ⟨m, back⟩ := exists_way advance rest
    have positive := Nat.pos_of_ne_zero (moves.advances t u n way turn)
    have whole := (Way.on turn back).position (way.induct first kept) kept moved
    have rounds : round ∣ advance t + m := (Nat.modEq_zero_iff_dvd).mp
      (Nat.ModEq.add_left_cancel' (position t) (by simpa using whole.symm))
    obtain ⟨k, total⟩ := rounds
    obtain ⟨k, rfl⟩ : ∃ j, k = j + 1 := Nat.exists_eq_succ_of_ne_zero (by
      rintro rfl
      omega)
    exact moves.once t n k way (total ▸ .on turn back)

end Recurrence
