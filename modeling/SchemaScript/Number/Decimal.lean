import SchemaScript.Number.Binary

/-!
# Decimal fractions

The decimal numbers that stand for a double or a single in a text.

A grid is the set of multiples of a power of ten.  The *shortest* decimal of a double is taken from
the coarsest grid that has a point in the interval of reals that round to the double, and of the
points there it is the nearest one, at equal distance the even one.  If a grid has a point in the
interval then so has one of the two neighbours of the double on it.  So only the neighbours are
tested, for one digit, two digits, and so on.  Seventeen digits are always enough.

A single is shown through a double.  `Single.shown` rounds it to six significant digits, then to
seven, eight and nine, and takes the first decimal that reads back as the single.
-/

namespace SchemaScript

/-- The number `digits * 10 ^ exponent`. -/
structure Decimal where
  /-- The digits, without the point. -/
  digits : Nat
  /-- The place of the last digit. -/
  exponent : Int
deriving DecidableEq, Repr

/-- The count of decimal digits of a positive number. -/
def decimalLength (n : Nat) : Nat :=
  (Nat.toDigits 10 n).length

/-- The count of digits before the point of a positive quotient.  It is zero or negative when the
quotient is below one. -/
def decimalPlaces (num den : Nat) : Int :=
  let guess : Int := (decimalLength num : Int) - (decimalLength den : Int)
  let p := scaled 10 1 guess
  if p.1 * den ≤ num * p.2 then guess + 1 else guess

namespace Decimal

/-- The same number without zeros at the end of the digits, looked for `count` times. -/
def strip : Nat → Decimal → Decimal
  | 0, d => d
  | count + 1, d =>
    if d.digits ≠ 0 ∧ d.digits % 10 = 0 then strip count ⟨d.digits / 10, d.exponent + 1⟩ else d

/-- The point next to a quotient on the grid of an exponent. -/
def onGrid (num den : Nat) (exponent : Int) : Decimal :=
  let p := scaled 10 1 exponent
  ⟨roundedQuotient (num * p.2) (den * p.1), exponent⟩

/-- A positive quotient rounded to a count of significant digits. -/
def rounded (num den count : Nat) : Decimal :=
  onGrid num den (decimalPlaces num den - count)

/-- Whether a decimal lies between two quotients of one denominator, the ends included or not. -/
def between (low high den : Nat) (closed : Bool) (d : Decimal) : Bool :=
  let p := scaled 10 d.digits d.exponent
  let here := p.1 * den
  if closed then decide (low * p.2 ≤ here ∧ here ≤ high * p.2)
  else decide (low * p.2 < here ∧ here < high * p.2)

/-- The neighbour of a quotient on a grid that lies between two ends, if one does.  The nearest
point is tested before the points on both sides of it. -/
def hit? (num low high den : Nat) (closed : Bool) (exponent : Int) : Option Decimal :=
  let near := onGrid num den exponent
  [near, ⟨near.digits - 1, exponent⟩, ⟨near.digits + 1, exponent⟩].find?
    (between low high den closed)

/-- The shortest decimal of the positive double with the given significand and exponent.  The step
down to the next double is half as wide when the significand is the least of its exponent. -/
def shortest (m : Nat) (q : Int) : Decimal :=
  let narrow := m = Nat.pow 2 52 ∧ -1074 < q
  let v := scaled 2 (4 * m) (q - 2)
  let ends (n : Nat) := (scaled 2 n (q - 2)).1
  let low := ends (if narrow then 4 * m - 1 else 4 * m - 2)
  let high := ends (4 * m + 2)
  let places := decimalPlaces v.1 v.2
  let found := (List.range 17).findSome? fun n =>
    hit? v.1 low high v.2 (m % 2 = 0) (places - (n + 1 : Nat))
  strip 17 (found.getD (rounded v.1 v.2 17))

end Decimal

/-- The shortest decimal of the magnitude of a finite double other than zero. -/
def Double.shortest (d : Double) : Decimal :=
  Decimal.shortest d.significand d.exponent

/-- The double that shows a finite single: the first decimal of six to nine significant digits that
reads back as the single. -/
def Single.shown (s : Single) : Double :=
  if s.magnitude = 0 then
    s.toDouble
  else
    let p := scaled 2 (BinaryFormat.single.significand s.magnitude)
      (BinaryFormat.single.exponent s.magnitude)
    let candidates := [6, 7, 8, 9].map fun count =>
      let r := Decimal.rounded p.1 p.2 count
      Double.ofDecimal s.negative r.digits r.exponent
    (candidates.find? fun d => Single.nearestMagnitude d = s.magnitude).getD s.toDouble

example : (Double.ofDecimal false 1 (-1)).shortest = ⟨1, -1⟩ := by decide +kernel
example : (Double.mk 1).shortest = ⟨5, -324⟩ := by decide +kernel
example : (Double.ofDecimal false 112589990684262425 (-2)).shortest = ⟨11258999068426242, -1⟩ := by
  decide +kernel

end SchemaScript
