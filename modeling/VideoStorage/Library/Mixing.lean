import Mathlib.Data.Nat.ModEq
import Mathlib.Logic.Function.Iterate

/-!
# Mixing 64-bit words

The steps that hash functions are made of. An exclusive or with the word shifted
to the right by half its width or more is its own inverse, and the product with
a unit has an inverse, so neither loses anything.

**Low bits first.** The low bits of a sum, of a product or of an exclusive or
depend on the low bits of the operands only. A function that also moves its result
to the left has at most one fixed point, and iterating it from anywhere reaches
that point (`eq_iterate_of_fixed`).
-/

set_option autoImplicit false

namespace Mixing

/-! ## Steps that lose nothing -/

/-- An exclusive or with the upper half, twice, is nothing. -/
theorem xorShiftRight_injective {s : UInt64} (half : 32 ≤ s.toNat) (within : s.toNat < 64) :
    Function.Injective fun x : UInt64 => x ^^^ (x >>> s) := by
  have shift : ∀ x : UInt64, (x >>> s).toNat = x.toNat / 2 ^ s.toNat := by
    intro x
    rw [UInt64.toNat_shiftRight, Nat.mod_eq_of_lt within, Nat.shiftRight_eq_div_pow]
  have gone : ∀ x : UInt64, x >>> s >>> s = 0 := by
    intro x
    rw [← UInt64.toNat_inj, shift, shift, Nat.div_div_eq_div_mul, ← Nat.pow_add]
    refine Nat.div_eq_of_lt (Nat.lt_of_lt_of_le x.toNat_lt ?_)
    exact Nat.pow_le_pow_right (by decide) (by omega)
  refine Function.LeftInverse.injective (g := fun x : UInt64 => x ^^^ (x >>> s)) fun x => ?_
  change x ^^^ x >>> s ^^^ (x ^^^ x >>> s) >>> s = x
  rw [UInt64.shiftRight_xor, gone, UInt64.xor_zero, UInt64.xor_assoc, UInt64.xor_self,
    UInt64.xor_zero]

theorem mul_injective {a inverse : UInt64} (unit : a * inverse = 1) :
    Function.Injective fun x : UInt64 => x * a := by
  intro x y same
  have scaled : x * a * inverse = y * a * inverse := congrArg (· * inverse) same
  rwa [UInt64.mul_assoc, UInt64.mul_assoc, unit, UInt64.mul_one, UInt64.mul_one] at scaled

theorem xor_injective (key : UInt64) : Function.Injective fun x : UInt64 => x ^^^ key := by
  intro x y same
  exact (UInt64.xor_left_inj key).mp same

/-! ## Low bits first -/

/-- Two words have the same low bits. -/
def AgreeBelow (bits : Nat) (x y : UInt64) : Prop := x.toNat % 2 ^ bits = y.toNat % 2 ^ bits

namespace AgreeBelow

variable {bits : Nat} {x y x' y' : UInt64}

theorem nothing (x y : UInt64) : AgreeBelow 0 x y := by
  rw [AgreeBelow, Nat.pow_zero, Nat.mod_one, Nat.mod_one]

theorem eq_of_all (all : 64 ≤ bits) (agree : AgreeBelow bits x y) : x = y := by
  have wide : ∀ z : UInt64, z.toNat % 2 ^ bits = z.toNat := fun z =>
    Nat.mod_eq_of_lt (Nat.lt_of_lt_of_le z.toNat_lt (Nat.pow_le_pow_right (by decide) all))
  rwa [AgreeBelow, wide, wide, UInt64.toNat_inj] at agree

/-- Below 64 bits, whether a word has wrapped around does not show. -/
theorem iff_of_mod {m n : Nat} (few : bits ≤ 64) :
    m % 2 ^ 64 % 2 ^ bits = n % 2 ^ 64 % 2 ^ bits ↔ m % 2 ^ bits = n % 2 ^ bits := by
  rw [Nat.mod_mod_of_dvd _ (Nat.pow_dvd_pow 2 few), Nat.mod_mod_of_dvd _ (Nat.pow_dvd_pow 2 few)]

theorem xor (agree : AgreeBelow bits x y) (agree' : AgreeBelow bits x' y') :
    AgreeBelow bits (x ^^^ x') (y ^^^ y') := by
  rw [AgreeBelow, UInt64.toNat_xor, UInt64.toNat_xor, Nat.xor_mod_two_pow, Nat.xor_mod_two_pow,
    agree, agree']

theorem add (few : bits ≤ 64) (agree : AgreeBelow bits x y) (agree' : AgreeBelow bits x' y') :
    AgreeBelow bits (x + x') (y + y') := by
  rw [AgreeBelow, UInt64.toNat_add, UInt64.toNat_add, iff_of_mod few]
  exact Nat.ModEq.add agree agree'

theorem mul (few : bits ≤ 64) (agree : AgreeBelow bits x y) (agree' : AgreeBelow bits x' y') :
    AgreeBelow bits (x * x') (y * y') := by
  rw [AgreeBelow, UInt64.toNat_mul, UInt64.toNat_mul, iff_of_mod few]
  exact Nat.ModEq.mul agree agree'

/-- Moving words to the left makes more low bits agree. -/
theorem shiftLeft {k : UInt64} (few : bits + k.toNat ≤ 64) (small : k.toNat < 64)
    (agree : AgreeBelow bits x y) : AgreeBelow (bits + k.toNat) (x <<< k) (y <<< k) := by
  rw [AgreeBelow, UInt64.toNat_shiftLeft, UInt64.toNat_shiftLeft, Nat.mod_eq_of_lt small,
    iff_of_mod few, Nat.shiftLeft_eq, Nat.shiftLeft_eq, Nat.pow_add, Nat.mul_mod_mul_right,
    Nat.mul_mod_mul_right, agree]

end AgreeBelow

/-- **A function that looks at low bits first and moves its result to the left**
reaches its fixed point by iteration, whatever it starts from. -/
theorem eq_iterate_of_fixed {f : UInt64 → UInt64} {k n : Nat} {x : UInt64}
    (moves : ∀ bits y z, bits + k ≤ 64 → AgreeBelow bits y z → AgreeBelow (bits + k) (f y) (f z))
    (all : n * k = 64) (fixed : f x = x) (start : UInt64) : f^[n] start = x := by
  have agree : ∀ turns, turns ≤ n → AgreeBelow (turns * k) (f^[turns] start) x := by
    intro turns
    induction turns with
    | zero =>
        intro _
        rw [Nat.zero_mul]
        exact .nothing _ _
    | succ turns ih =>
        intro few
        have within : turns * k + k ≤ 64 := by
          rw [← Nat.succ_mul, ← all]
          exact Nat.mul_le_mul_right k few
        have next := moves _ _ _ within (ih (Nat.le_of_succ_le few))
        rwa [fixed, ← Nat.succ_mul, ← Function.iterate_succ_apply' f] at next
  exact (agree n (Nat.le_refl n)).eq_of_all (Nat.le_of_eq all.symm)

end Mixing
