/-!
# Binary fractions

Doubles and singles as their bits, what a finite one stands for, and rounding to the nearest one.

A finite number of either format is a significand times a power of two.  The significand has at
most `precision` binary digits, and the exponent is never below `least`.  A significand of fewer
digits occurs only at the least exponent.  So the bits without the sign, read as a natural number,
grow with the magnitude, and the same sum writes them in both cases (`BinaryFormat.encode`).

Rounding works on a positive rational, given by numerator and denominator.  It takes the grid of
the largest exponent on which the quotient still has `precision` digits, and there the nearer
neighbour, at equal distance the even one.  What rounds past the largest number becomes infinite.

Powers are written with `Nat.pow`, which means the same whatever else is imported.
-/

namespace SchemaScript

/-- A double-precision number. -/
structure Double where
  /-- Its sixty-four bits. -/
  bits : UInt64
deriving DecidableEq, Repr

/-- A single-precision number. -/
structure Single where
  /-- Its thirty-two bits. -/
  bits : UInt32
deriving DecidableEq, Repr

/-! ## Exact quotients -/

/-- The quotient rounded to the nearest natural number, at equal distance to the even one. -/
def roundedQuotient (num den : Nat) : Nat :=
  let q := num / den
  let twice := 2 * (num % den)
  if twice < den ∨ (twice = den ∧ q % 2 = 0) then q else q + 1

/-- A numerator and a denominator of `n * base ^ k`. -/
def scaled (base n : Nat) (k : Int) : Nat × Nat :=
  if 0 ≤ k then (n * base.pow k.toNat, 1) else (n, base.pow (-k).toNat)

/-! ## Formats -/

/-- The numbers `m * 2 ^ q` with `m < 2 ^ precision` and `least ≤ q ≤ greatest`. -/
structure BinaryFormat where
  /-- The count of binary digits of a significand. -/
  precision : Nat
  /-- The least exponent. -/
  least : Int
  /-- The greatest exponent. -/
  greatest : Int

/-- The format of doubles. -/
def BinaryFormat.double : BinaryFormat :=
  ⟨53, -1074, 971⟩

/-- The format of singles. -/
def BinaryFormat.single : BinaryFormat :=
  ⟨24, -149, 104⟩

/-- The exponent of the power of two next below a positive quotient. -/
def floorLog2 (num den : Nat) : Int :=
  let guess : Int := (Nat.log2 num : Int) - (Nat.log2 den : Int)
  let p := scaled 2 1 guess
  if p.1 * den ≤ num * p.2 then guess else guess - 1

namespace BinaryFormat

/-- The exponent of the grid on which a positive quotient is rounded. -/
def gridOf (f : BinaryFormat) (num den : Nat) : Int :=
  max f.least (floorLog2 num den - ((f.precision : Int) - 1))

/-- The highest digit of a full significand, which the bits leave out. -/
def hidden (f : BinaryFormat) : Nat :=
  Nat.pow 2 (f.precision - 1)

/-- The bits of a significand and an exponent, without the sign. -/
def encode (f : BinaryFormat) (m : Nat) (q : Int) : Nat :=
  m + (q - f.least).toNat * f.hidden

/-- The bits of infinity, without the sign. -/
def infinity (f : BinaryFormat) : Nat :=
  (f.greatest - f.least + 2).toNat * f.hidden

/-- The bits of the number next to a quotient, without the sign. -/
def nearest (f : BinaryFormat) (num den : Nat) : Nat :=
  if num = 0 then
    0
  else
    let q := f.gridOf num den
    let p := scaled 2 1 q
    min (f.encode (roundedQuotient (num * p.2) (den * p.1)) q) f.infinity

/-- The significand in the bits of a finite number. -/
def significand (f : BinaryFormat) (bits : Nat) : Nat :=
  if bits < f.hidden then bits else f.hidden + bits % f.hidden

/-- The exponent in the bits of a finite number. -/
def exponent (f : BinaryFormat) (bits : Nat) : Int :=
  f.least + ((bits / f.hidden - 1 : Nat) : Int)

end BinaryFormat

/-! ## Doubles -/

namespace Double

/-- Whether the sign is set. -/
def negative (d : Double) : Bool :=
  decide (Nat.pow 2 63 ≤ d.bits.toNat)

/-- The bits without the sign. -/
def magnitude (d : Double) : Nat :=
  d.bits.toNat % Nat.pow 2 63

/-- Whether it is no number at all. -/
def isNaN (d : Double) : Bool :=
  decide (BinaryFormat.double.infinity < d.magnitude)

/-- Whether it is one of the two infinities. -/
def isInfinite (d : Double) : Bool :=
  decide (d.magnitude = BinaryFormat.double.infinity)

/-- The significand of a finite double. -/
def significand (d : Double) : Nat :=
  BinaryFormat.double.significand d.magnitude

/-- The exponent of a finite double. -/
def exponent (d : Double) : Int :=
  BinaryFormat.double.exponent d.magnitude

/-- The double with a sign and a magnitude. -/
def ofMagnitude (negative : Bool) (magnitude : Nat) : Double :=
  ⟨UInt64.ofNat (if negative then magnitude + Nat.pow 2 63 else magnitude)⟩

/-- The infinity of a sign. -/
def infinite (negative : Bool) : Double :=
  ofMagnitude negative BinaryFormat.double.infinity

/-- A double that is no number. -/
def nan : Double :=
  ofMagnitude false (BinaryFormat.double.infinity + Nat.pow 2 51)

/-- The double next to `digits * 10 ^ exponent`. -/
def ofDecimal (negative : Bool) (digits : Nat) (exponent : Int) : Double :=
  if digits = 0 ∨ exponent + (Nat.log2 digits : Int) < -400 then
    ofMagnitude negative 0
  else if 400 < exponent then
    infinite negative
  else
    let p := scaled 10 digits exponent
    ofMagnitude negative (BinaryFormat.double.nearest p.1 p.2)

/-- The integer next to a finite double on its way to zero. -/
def truncated (d : Double) : Int :=
  let p := scaled 2 d.significand d.exponent
  if d.negative then -((p.1 / p.2 : Nat) : Int) else ((p.1 / p.2 : Nat) : Int)

/-- The integer that a double stands for, if it is one. -/
def toInt? (d : Double) : Option Int :=
  if d.isNaN || d.isInfinite then
    none
  else
    let p := scaled 2 d.significand d.exponent
    if p.1 % p.2 = 0 then some d.truncated else none

end Double

/-! ## Singles -/

namespace Single

/-- Whether the sign is set. -/
def negative (s : Single) : Bool :=
  decide (Nat.pow 2 31 ≤ s.bits.toNat)

/-- The bits without the sign. -/
def magnitude (s : Single) : Nat :=
  s.bits.toNat % Nat.pow 2 31

/-- Whether it is no number at all. -/
def isNaN (s : Single) : Bool :=
  decide (BinaryFormat.single.infinity < s.magnitude)

/-- Whether it is one of the two infinities. -/
def isInfinite (s : Single) : Bool :=
  decide (s.magnitude = BinaryFormat.single.infinity)

/-- The single next to a finite double, as the bits without the sign. -/
def nearestMagnitude (d : Double) : Nat :=
  let p := scaled 2 d.significand d.exponent
  BinaryFormat.single.nearest p.1 p.2

/-- The double equal to a finite single. -/
def toDouble (s : Single) : Double :=
  let p := scaled 2 (BinaryFormat.single.significand s.magnitude)
    (BinaryFormat.single.exponent s.magnitude)
  Double.ofMagnitude s.negative (BinaryFormat.double.nearest p.1 p.2)

end Single

example : Double.ofDecimal false 15 (-1) = ⟨0x3ff8000000000000⟩ := by decide +kernel
example : (Double.ofDecimal true 3 0).toInt? = some (-3) := by decide +kernel
example : (Double.ofDecimal true 35 (-1)).truncated = -3 := by decide +kernel
example : Double.ofDecimal false 5 (-324) = ⟨1⟩ := by decide +kernel

end SchemaScript
