import Mathlib.Algebra.Order.BigOperators.Group.Finset
import Mathlib.Data.Finset.Max
import Mathlib.Order.Interval.Finset.Nat

/-!
# Growing intervals

Finitely many intervals of natural numbers, one of which begins at 0. While their lengths do
not add up to `n`, the end of one of them lies below `n` and in none of the intervals
(`exists_free_end`). For if every end below `n` lies in an interval, the intervals cover all
numbers below `n` (`covered_of_ends`): of those that begin at a number or before it, the one
that reaches farthest reaches beyond it.

An interval that grows by one makes the lengths add up to one more (`total_update`).
-/

set_option autoImplicit false

namespace Intervals

variable {ι : Type} {first next : ι → ℕ} {n : ℕ}

/-- A number lies in one of the intervals. -/
def Covered (first next : ι → ℕ) (x : ℕ) : Prop := ∃ i, first i ≤ x ∧ x < next i

/-- A longer interval covers what it has covered, and its former end. -/
theorem Covered.update [DecidableEq ι] {i : ι} {x : ℕ} (ordered : first i ≤ next i)
    (covered : x = next i ∨ Covered first next x) :
    Covered first (Function.update next i (next i + 1)) x := by
  rcases covered with rfl | ⟨j, starts, ends⟩
  · refine ⟨i, ordered, ?_⟩
    rw [Function.update_self]
    exact Nat.lt_succ_self _
  · refine ⟨j, starts, ?_⟩
    by_cases same : j = i
    · subst same
      rw [Function.update_self]
      exact Nat.lt_succ_of_lt ends
    · rwa [Function.update_of_ne same]

variable [Fintype ι]

/-- What the lengths add up to. -/
def total (first next : ι → ℕ) : ℕ := ∑ i, (next i - first i)

theorem covered_of_ends (start : ∃ i, first i = 0)
    (ends : ∀ i, next i < n → Covered first next (next i)) {x : ℕ} (below : x < n) :
    Covered first next x := by
  by_contra free
  obtain ⟨origin, zero⟩ := start
  obtain ⟨i, begins, farthest⟩ := Finset.exists_max_image
    (Finset.univ.filter fun i => first i ≤ x) next
    ⟨origin, Finset.mem_filter.mpr ⟨Finset.mem_univ _, zero.trans_le (Nat.zero_le x)⟩⟩
  have before := (Finset.mem_filter.mp begins).2
  have short : next i ≤ x := Nat.le_of_not_lt fun beyond => free ⟨i, before, beyond⟩
  obtain ⟨j, starts, reaches⟩ := ends i (Nat.lt_of_le_of_lt short below)
  have least := farthest j (Finset.mem_filter.mpr ⟨Finset.mem_univ _, starts.trans short⟩)
  exact Nat.lt_irrefl _ (Nat.lt_of_lt_of_le reaches least)

/-- Intervals that cover a range are as long in total. -/
theorem le_total_of_covered (covers : ∀ x < n, Covered first next x) : n ≤ total first next := by
  have inside : Finset.range n ⊆
      Finset.univ.biUnion fun i => Finset.Ico (first i) (next i) := by
    intro x below
    obtain ⟨i, starts, ends⟩ := covers x (Finset.mem_range.mp below)
    exact Finset.mem_biUnion.mpr ⟨i, Finset.mem_univ i, Finset.mem_Ico.mpr ⟨starts, ends⟩⟩
  calc n = (Finset.range n).card := (Finset.card_range n).symm
    _ ≤ (Finset.univ.biUnion fun i => Finset.Ico (first i) (next i)).card :=
        Finset.card_le_card inside
    _ ≤ ∑ i, (Finset.Ico (first i) (next i)).card := Finset.card_biUnion_le
    _ = total first next := Finset.sum_congr rfl fun i _ => Nat.card_Ico (first i) (next i)

/-- **An end in none of the intervals**, while they are not long enough. -/
theorem exists_free_end (start : ∃ i, first i = 0) (short : total first next < n) :
    ∃ i, next i < n ∧ ¬ Covered first next (next i) := by
  by_contra none
  have ends : ∀ i, next i < n → Covered first next (next i) := by
    intro i below
    by_contra free
    exact none ⟨i, below, free⟩
  have long := le_total_of_covered fun x => covered_of_ends start ends (x := x)
  exact Nat.lt_irrefl _ (Nat.lt_of_lt_of_le short long)

theorem total_update [DecidableEq ι] {i : ι} (ordered : first i ≤ next i) :
    total first (Function.update next i (next i + 1)) = total first next + 1 := by
  have others : ∑ j ∈ Finset.univ.erase i, (Function.update next i (next i + 1) j - first j) =
      ∑ j ∈ Finset.univ.erase i, (next j - first j) := by
    refine Finset.sum_congr rfl fun j other => ?_
    rw [Function.update_of_ne (Finset.ne_of_mem_erase other)]
  unfold total
  rw [← Finset.add_sum_erase _ _ (Finset.mem_univ i), others,
    ← Finset.add_sum_erase _ (fun j => next j - first j) (Finset.mem_univ i), Function.update_self]
  omega

end Intervals
