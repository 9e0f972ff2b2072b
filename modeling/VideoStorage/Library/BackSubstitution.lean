import Mathlib.Data.List.Basic
import Mathlib.Logic.Function.Basic

/-!
# Back substitution

A system of equations over variables that are assigned one after the other. Each
equation is solved for one of its variables, its pivot. The system is triangular
when the pivot of an equation does not occur in any later one. Solving the
equations from the last to the first then solves all of them
(`holds_backSubstitute`): what is assigned for an equation changes none behind it.
-/

set_option autoImplicit false

/-- An equation with the variables that occur in it and a way to solve it for its
pivot. -/
structure SolvedEquation (ι V : Type) where
  pivot : ι
  Occurs : ι → Prop
  Holds : (ι → V) → Prop
  solve : (ι → V) → V
  congr {σ τ : ι → V} (same : ∀ i, Occurs i → σ i = τ i) (holds : Holds σ) : Holds τ

namespace SolvedEquation

variable {ι V : Type} [DecidableEq ι]

/-- Assign the pivot. -/
def assign (equation : SolvedEquation ι V) (σ : ι → V) : ι → V :=
  Function.update σ equation.pivot (equation.solve σ)

/-- The value for the pivot solves the equation, whatever the others are. -/
def Sound (equation : SolvedEquation ι V) : Prop := ∀ σ, equation.Holds (equation.assign σ)

/-- Solve the equations from the last to the first. -/
def backSubstitute (equations : List (SolvedEquation ι V)) (σ : ι → V) : ι → V :=
  equations.foldr assign σ

/-- The pivot of an equation does not occur in any later one. -/
def Triangular (equations : List (SolvedEquation ι V)) : Prop :=
  equations.Pairwise fun first later => ¬ later.Occurs first.pivot

/-- Assigning a variable that does not occur changes nothing. -/
theorem holds_assign {equation other : SolvedEquation ι V} {σ : ι → V}
    (absent : ¬ other.Occurs equation.pivot) (holds : other.Holds σ) :
    other.Holds (equation.assign σ) := by
  refine other.congr (fun i occurs => ?_) holds
  have different : i ≠ equation.pivot := by
    rintro rfl
    exact absent occurs
  exact (Function.update_of_ne different ..).symm

/-- **Back substitution solves a triangular system.** -/
theorem holds_backSubstitute {equations : List (SolvedEquation ι V)}
    (triangular : Triangular equations) (sound : ∀ equation ∈ equations, equation.Sound)
    (σ : ι → V) : ∀ equation ∈ equations, equation.Holds (backSubstitute equations σ) := by
  induction equations with
  | nil => exact nofun
  | cons first later ih =>
      obtain ⟨absent, rest⟩ := List.pairwise_cons.mp triangular
      have behind := ih rest fun equation inside => sound equation (List.mem_cons_of_mem _ inside)
      rintro equation (_ | ⟨_, inside⟩)
      · exact sound first List.mem_cons_self _
      · exact holds_assign (absent equation inside) (behind equation inside)

end SolvedEquation
