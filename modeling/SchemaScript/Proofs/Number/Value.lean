import Mathlib.Algebra.Order.Field.Power
import Mathlib.Data.Rat.Cast.Order
import SchemaScript.Number.Binary

/-!
# Values of doubles

The rational number that a finite double stands for.

It is read off the fields of the bits: the sign, eleven bits of an exponent and fifty-two bits of a
fraction (`Double.value`).  A double whose exponent bits are all zero has no hidden digit, and one
whose exponent bits are all one is not finite.

The significand and the exponent that numbers are written from give the same value
(`Double.value_eq`), and a double is written as an integer only if its value is that integer
(`Double.toInt?_eq_some_iff`).
-/

namespace SchemaScript

/-! ## Scaled numbers -/

theorem scaled_snd_pos {base : Nat} (hbase : 0 < base) (n : Nat) (k : Int) :
    0 < (scaled base n k).2 := by
  unfold scaled
  split
  · exact Nat.one_pos
  · exact Nat.pow_pos hbase

theorem scaled_fst_eq {base : Nat} (hbase : 0 < base) (n : Nat) (k : Int) :
    ((scaled base n k).1 : ℚ) = n * (base : ℚ) ^ k * (scaled base n k).2 := by
  have hne : (base : ℚ) ≠ 0 := Nat.cast_ne_zero.mpr hbase.ne'
  unfold scaled
  split
  · next hk =>
    obtain ⟨m, rfl⟩ := Int.eq_ofNat_of_zero_le hk
    simp
  · next hk =>
    obtain ⟨m, hm⟩ := Int.eq_ofNat_of_zero_le (show 0 ≤ -k by omega)
    obtain rfl : k = -(m : Int) := by omega
    simp [hne]

/-! ## Fields -/

namespace Double

variable {d : Double}

/-- The eleven bits of the exponent. -/
def exponentField (d : Double) : ℕ :=
  d.magnitude / 2 ^ 52

/-- The fifty-two bits of the fraction. -/
def fractionField (d : Double) : ℕ :=
  d.magnitude % 2 ^ 52

/-- A double is a number and no infinity: not all bits of the exponent are set. -/
def IsFinite (d : Double) : Prop :=
  d.exponentField < 2047

instance (d : Double) : Decidable d.IsFinite :=
  inferInstanceAs (Decidable (d.exponentField < 2047))

/-- The number that a finite double stands for. -/
def value (d : Double) : ℚ :=
  (if d.negative then -1 else 1) *
    if d.exponentField = 0 then (d.fractionField : ℚ) * 2 ^ (-1074 : ℤ)
    else (2 ^ 52 + d.fractionField : ℚ) * 2 ^ ((d.exponentField : ℤ) - 1075)

theorem IsFinite.magnitude_lt (h : d.IsFinite) :
    d.magnitude < BinaryFormat.double.infinity := by
  have hinfinity : BinaryFormat.double.infinity = 2047 * 2 ^ 52 := rfl
  rw [hinfinity]
  exact Nat.lt_mul_of_div_lt h (by decide)

theorem IsFinite.isNaN (h : d.IsFinite) : d.isNaN = false :=
  decide_eq_false (Nat.lt_asymm h.magnitude_lt)

theorem IsFinite.isInfinite (h : d.IsFinite) : d.isInfinite = false :=
  decide_eq_false h.magnitude_lt.ne

/-! ## Values by significands -/

theorem value_eq (d : Double) :
    d.value = (if d.negative then -1 else 1) * (d.significand * 2 ^ d.exponent) := by
  have hhidden : BinaryFormat.double.hidden = 2 ^ 52 := rfl
  have hleast : BinaryFormat.double.least = -1074 := rfl
  unfold value significand exponent BinaryFormat.significand BinaryFormat.exponent
    exponentField fractionField
  rw [hhidden, hleast]
  by_cases hfield : d.magnitude / 2 ^ 52 = 0
  · have hlt : d.magnitude < 2 ^ 52 := by omega
    rw [if_pos hfield, if_pos hlt, hfield, Nat.mod_eq_of_lt hlt]
    rfl
  · have hle : ¬ d.magnitude < 2 ^ 52 := by omega
    have hexponent : ((d.magnitude / 2 ^ 52 : ℕ) : ℤ) - 1075 =
        -1074 + ((d.magnitude / 2 ^ 52 - 1 : ℕ) : ℤ) := by omega
    rw [if_neg hfield, if_neg hle, hexponent]
    push_cast
    rfl

/-- A double is converted to the integer that it stands for, if it stands for one. -/
theorem toInt?_eq_some_iff (h : d.IsFinite) {n : ℤ} : d.toInt? = some n ↔ d.value = n := by
  have hpos : 0 < (scaled 2 d.significand d.exponent).2 := scaled_snd_pos (by decide) _ _
  have hfst : ((scaled 2 d.significand d.exponent).1 : ℚ) =
      d.significand * 2 ^ d.exponent * (scaled 2 d.significand d.exponent).2 :=
    scaled_fst_eq (by decide) _ _
  have hpos' : ((scaled 2 d.significand d.exponent).2 : ℚ) ≠ 0 := Nat.cast_ne_zero.mpr hpos.ne'
  unfold toInt? truncated
  rw [value_eq, h.isNaN, h.isInfinite]
  generalize scaled 2 d.significand d.exponent = p at hpos hfst hpos'
  generalize (d.significand : ℚ) * 2 ^ d.exponent = v at hfst
  by_cases hdvd : p.1 % p.2 = 0
  · obtain ⟨q, hq⟩ := Nat.dvd_of_mod_eq_zero hdvd
    have hquotient : p.1 / p.2 = q := by rw [hq, Nat.mul_div_cancel_left q hpos]
    have hv : v = q := by
      rw [hq, Nat.cast_mul, mul_comm] at hfst
      exact (mul_right_cancel₀ hpos' hfst).symm
    simp only [hquotient, hdvd, hv, Bool.or_self, Bool.false_eq_true, if_false, if_true,
      Option.some.injEq, ← Int.cast_inj (α := ℚ)]
    split <;> simp
  · simp only [Bool.or_self, Bool.false_eq_true, if_false, if_neg hdvd, reduceCtorEq, false_iff]
    intro hn
    have hsigned : (p.1 : ℤ) = (if d.negative then -1 else 1) * n * p.2 := by
      rw [← Int.cast_inj (α := ℚ)]
      push_cast
      rw [← hn, hfst]
      split <;> simp
    exact hdvd (Nat.mod_eq_zero_of_dvd (Int.natCast_dvd_natCast.mp (Dvd.intro_left _ hsigned.symm)))

end Double
end SchemaScript
