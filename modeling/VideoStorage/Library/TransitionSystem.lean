import Mathlib.Logic.Relation

/-!
# Transition systems

A system is a step function: the state after an action, when the action is
possible there. A run under a guard takes steps whose action the guard allows in
the state before it; the reachable states are those of the runs under no guard.

**The invariant rule.** What holds at the start and is preserved by every step
the guard allows holds wherever a run ends (`Run.invariant`). Concrete runs are
computed by `exec` and are runs (`run_of_exec`). An invariant may speak of the actions
that were taken, too (`exec_invariant`).

**The progress rule.** A goal is reached on every path of a system in which, until
then, a step is always possible and every step makes a measure smaller
(`Inevitable.of_measure`), and not where a path can avoid it for ever
(`Inevitable.not_of_avoidable`).
-/

set_option autoImplicit false

/-- The state after an action, when the action is possible. -/
abbrev TransitionSystem (S A : Type) := S → A → Option S

namespace TransitionSystem

variable {S A : Type} {step : TransitionSystem S A} {allowed : S → A → Bool}

/-- One step under a guard. -/
def GuardedStep (step : TransitionSystem S A) (allowed : S → A → Bool) (s t : S) : Prop :=
  ∃ action, allowed s action = true ∧ step s action = some t

/-- Any number of steps under a guard. -/
abbrev Run (step : TransitionSystem S A) (allowed : S → A → Bool) : S → S → Prop :=
  Relation.ReflTransGen (GuardedStep step allowed)

/-- The guard that allows everything. -/
def anything : S → A → Bool := fun _ _ => true

/-- Any number of steps. -/
abbrev Reachable (step : TransitionSystem S A) : S → S → Prop := Run step anything

/-- An invariant of the guarded steps holds along a run. -/
theorem Run.invariant {Inv : S → Prop} {s t : S} (run : Run step allowed s t) (start : Inv s)
    (preserved : ∀ {s t action}, Inv s → allowed s action = true → step s action = some t → Inv t) :
    Inv t := by
  induction run with
  | refl => exact start
  | tail _ last ih =>
      obtain ⟨action, permitted, moved⟩ := last
      exact preserved ih permitted moved

/-- Take the actions one after the other, as long as the guard allows them. -/
def exec (step : TransitionSystem S A) (allowed : S → A → Bool) : S → List A → Option S
  | s, [] => some s
  | s, action :: more =>
      if allowed s action then (step s action).bind fun t => exec step allowed t more else none

theorem run_of_exec {s t : S} {actions : List A} (ran : exec step allowed s actions = some t) :
    Run step allowed s t := by
  induction actions generalizing s with
  | nil =>
      cases ran
      exact .refl
  | cons action more ih =>
      unfold exec at ran
      split at ran
      · rename_i permitted
        obtain ⟨u, moved, rest⟩ := Option.bind_eq_some_iff.mp ran
        exact .head ⟨action, permitted, moved⟩ (ih rest)
      · cases ran

theorem exec_concat {s t u : S} {actions : List A} {action : A}
    (ran : exec step allowed s actions = some t) (permitted : allowed t action = true)
    (moved : step t action = some u) : exec step allowed s (actions ++ [action]) = some u := by
  induction actions generalizing s with
  | nil =>
      cases ran
      rw [List.nil_append, exec, if_pos permitted, moved]
      rfl
  | cons first more ih =>
      rw [exec] at ran
      split at ran
      · rename_i allowed
        obtain ⟨v, began, rest⟩ := Option.bind_eq_some_iff.mp ran
        rw [List.cons_append, exec, if_pos allowed, began]
        exact ih rest
      · cases ran

/-- An invariant that speaks of the actions so far holds at the end of an execution. -/
theorem exec_invariant {Inv : List A → S → Prop} {s t : S} {past actions : List A}
    (ran : exec step allowed s actions = some t) (start : Inv past s)
    (preserved : ∀ {past s t action}, Inv past s → allowed s action = true →
      step s action = some t → Inv (past ++ [action]) t) : Inv (past ++ actions) t := by
  induction actions generalizing s past with
  | nil =>
      cases ran
      exact (List.append_nil past).symm ▸ start
  | cons action more ih =>
      unfold exec at ran
      split at ran
      · rename_i permitted
        obtain ⟨u, moved, rest⟩ := Option.bind_eq_some_iff.mp ran
        have later := ih rest (preserved start permitted moved)
        rwa [List.append_assoc] at later
      · cases ran

/-- On every path of guarded steps the goal is reached, whichever step is taken. -/
inductive Inevitable (step : TransitionSystem S A) (allowed : S → A → Bool) (goal : S → Prop) :
    S → Prop where
  | reached {s : S} (here : goal s) : Inevitable step allowed goal s
  | later {s : S} (enabled : ∃ t, GuardedStep step allowed s t)
      (next : ∀ t, GuardedStep step allowed s t → Inevitable step allowed goal t) :
      Inevitable step allowed goal s

/-- A goal is inevitable when, before it is reached, there is always a step and
every step makes a measure smaller. -/
theorem Inevitable.of_measure {Inv goal : S → Prop} (measure : S → Nat)
    (enabled : ∀ {s}, Inv s → ¬ goal s → ∃ t, GuardedStep step allowed s t)
    (decreases : ∀ {s t}, Inv s → ¬ goal s → GuardedStep step allowed s t →
      Inv t ∧ measure t < measure s) {s : S} (inv : Inv s) : Inevitable step allowed goal s := by
  induction bound : measure s using Nat.strongRecOn generalizing s with
  | ind n ih =>
      by_cases here : goal s
      · exact .reached here
      · refine .later (enabled inv here) fun t moved => ?_
        obtain ⟨kept, less⟩ := decreases inv here moved
        exact ih (measure t) (bound ▸ less) kept rfl

/-- A goal is not inevitable when a path can avoid it for ever. -/
theorem Inevitable.not_of_avoidable {Inv goal : S → Prop}
    (avoids : ∀ {s}, Inv s → ¬ goal s ∧ ∃ t, GuardedStep step allowed s t ∧ Inv t) {s : S}
    (inv : Inv s) : ¬ Inevitable step allowed goal s := by
  intro inevitable
  induction inevitable with
  | reached here => exact (avoids inv).1 here
  | later _ _ ih =>
      obtain ⟨_, t, moved, kept⟩ := avoids inv
      exact ih t moved kept

end TransitionSystem
