import Mathlib.Algebra.Order.Ring.Int
import SchemaScript.Constant
import SchemaScript.Number.Layout

/-!
# Short integers

Which integers have few enough digits to be written.

The limit is far beyond the integers of 32 bits and the ordinals of constants, so only an integer
that is taken from a value as it is can be too long.  The powers of ten are compared by their
exponents, since their digits are too many to work with.
-/

namespace SchemaScript

theorem isShortInt_iff {n : Int} : isShortInt n = true ↔ n.natAbs < 10 ^ 4300 := by
  have hpow (k : Nat) : Nat.pow 10 k = 10 ^ k := rfl
  rw [isShortInt, decide_eq_true_iff, hpow, maxDigits]

theorem isShortInt_eq_false_iff {n : Int} : isShortInt n = false ↔ 10 ^ 4300 ≤ n.natAbs := by
  rw [Bool.eq_false_iff, Ne, isShortInt_iff, Nat.not_lt]

/-- The power itself has one digit too many. -/
theorem isShortInt_pow_eq_false : isShortInt (10 ^ 4300) = false := by
  have hpow (k : Nat) : (10 ^ k : Int).natAbs = 10 ^ k := Int.natAbs_pow 10 k
  rw [isShortInt_eq_false_iff, hpow]

end SchemaScript
