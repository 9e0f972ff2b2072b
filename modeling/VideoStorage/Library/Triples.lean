/-!
# Triples for steps that may fail

A computation with a state and errors ends normally, with a value, or with an error, and in
either case in some state. A triple says what holds of the state before it, after its normal
end and after an error: an early return skips what comes next, and keeps what the steps
before it have done.

The rule for two computations one after the other is `Triple.andThen`: what holds after an
error of either is the same. The other rules are those of a choice (`Triple.ite`) and of
consequence (`Triple.weaken`).
-/

set_option autoImplicit false

namespace ExceptState

variable {σ ε α β : Type}

/-- Steps on a state that may fail. -/
abbrev Steps (σ ε α : Type) := ExceptT ε (StateM σ) α

/-- From a state of `P`, the computation ends normally in a state of `Q`, or with an error in a
state of `E`. -/
def Triple (P : σ → Prop) (steps : Steps σ ε α) (Q : σ → Prop) (E : σ → Prop) : Prop :=
  ∀ s, P s → match steps.run s with
    | (.ok _, t) => Q t
    | (.error _, t) => E t

namespace Triple

variable {P Q R E : σ → Prop} {steps : Steps σ ε α} {rest : Steps σ ε β}

theorem andThen (first : Triple P steps Q E) (after : Triple Q rest R E) :
    Triple P (steps >>= fun _ => rest) R E := by
  intro s here
  have ends := first s here
  simp only [ExceptT.run_bind]
  simp only [bind, StateT.bind]
  cases ran : steps.run s with
  | mk result t =>
      rw [ran] at ends
      cases result with
      | ok value => exact after t ends
      | error failure => exact ends

theorem ite {condition : Bool} {other : Steps σ ε α}
    (yes : condition = true → Triple P steps Q E) (no : condition = false → Triple P other Q E) :
    Triple P (if condition then steps else other) Q E := by
  cases condition with
  | true => exact yes rfl
  | false => exact no rfl

/-- The rule of consequence for what holds after an error. -/
theorem weaken {F : σ → Prop} (triple : Triple P steps Q E) (weaker : ∀ s, E s → F s) :
    Triple P steps Q F := by
  intro s here
  have ends := triple s here
  cases ran : steps.run s with
  | mk result t =>
      rw [ran] at ends
      cases result with
      | ok value => exact ends
      | error failure => exact weaker t ends

/-- What holds where the computation ends with an error. -/
theorem of_error {s t : σ} {failure : ε} (triple : Triple P steps Q E) (here : P s)
    (ended : steps.run s = (.error failure, t)) : E t := by
  have ends := triple s here
  rw [ended] at ends
  exact ends

end Triple

end ExceptState
