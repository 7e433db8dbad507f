import SchemaScript.Number.Decimal

/-!
# Number layout

How numbers are written.

An integer is written in its decimal digits, after a minus sign when it is negative.  An integer of
more than `maxDigits` digits is too long for that (`isShortInt`), and what has to be written of it
fails.

A double is written by the digits of its shortest decimal.  When the point falls from four places
before the digits to sixteen places after their start, the point is set among the digits or padding
zeros.  Otherwise one digit stands before the point and the exponent follows after `e` and a sign.
The two uses of a double differ in two decisions, which `DoubleStyle` records.

* In a message (`DoubleStyle.message`) a whole number keeps `.0` after its digits and an exponent
  has two digits at least.
* In a script (`DoubleStyle.script`) a whole number below `10 ^ 21` is written like an integer, with
  all its digits and no sign for zero, and an exponent has no leading zero.

So the exponent is the only difference between the two forms of a double that is not whole.
-/

namespace SchemaScript

/-- An integer in decimal digits. -/
def intText (n : Int) : String :=
  if n < 0 then "-" ++ Nat.repr n.natAbs else Nat.repr n.natAbs

/-- The most digits that an integer is written in. -/
def maxDigits : Nat :=
  4300

/-- Whether an integer has few enough digits to be written. -/
def isShortInt (n : Int) : Bool :=
  decide (n.natAbs < Nat.pow 10 maxDigits)

/-- The decisions in which the two forms of a double differ. -/
structure DoubleStyle where
  /-- The least count of digits of an exponent. -/
  exponentWidth : Nat
  /-- Whether whole numbers of up to twenty-one digits are written as integers. -/
  plainIntegers : Bool
  /-- The text for what is no number. -/
  nan : String
  /-- The text for infinity, without the sign. -/
  infinity : String

/-- The form of a double in a message. -/
def DoubleStyle.message : DoubleStyle :=
  ⟨2, false, "nan", "inf"⟩

/-- The form of a double in a script. -/
def DoubleStyle.script : DoubleStyle :=
  ⟨1, true, "NaN", "Infinity"⟩

/-- A text filled up with zeros on the left. -/
def padZeros (width : Nat) (s : String) : String :=
  String.ofList (List.replicate (width - s.length) '0') ++ s

/-- An exponent with its sign. -/
def exponentText (width : Nat) (e : Int) : String :=
  (if e < 0 then "e-" else "e+") ++ padZeros width (Nat.repr e.natAbs)

/-- The digits with the point `places` after their start. -/
def positionalText (digits : String) (places : Int) : String :=
  if places ≤ 0 then
    "0." ++ padZeros (digits.length + (-places).toNat) digits
  else
    let whole := places.toNat
    if digits.length ≤ whole then
      digits ++ String.ofList (List.replicate (whole - digits.length) '0') ++ ".0"
    else
      String.ofList (digits.toList.take whole) ++ "." ++ String.ofList (digits.toList.drop whole)

/-- One digit, the point and the remaining digits, if there are any. -/
def leadingDigitText (digits : String) : String :=
  match digits.toList with
  | [] => ""
  | [d] => String.ofList [d]
  | d :: rest => String.ofList (d :: '.' :: rest)

/-- A positive decimal, positional or with an exponent. -/
def Decimal.text (exponentWidth : Nat) (d : Decimal) : String :=
  let digits := Nat.repr d.digits
  let places : Int := digits.length + d.exponent
  if -4 < places ∧ places ≤ 16 then
    positionalText digits places
  else
    leadingDigitText digits ++ exponentText exponentWidth (places - 1)

/-- The magnitude of a finite double by its shortest decimal. -/
def Double.magnitudeText (exponentWidth : Nat) (d : Double) : String :=
  if d.magnitude = 0 then "0.0" else d.shortest.text exponentWidth

/-- The integer that a style writes for a double, if it writes one. -/
def DoubleStyle.integer? (style : DoubleStyle) (d : Double) : Option Int :=
  match d.toInt? with
  | some n => if style.plainIntegers ∧ n.natAbs < Nat.pow 10 21 then some n else none
  | none => none

/-- A double in a style. -/
def Double.text (style : DoubleStyle) (d : Double) : String :=
  if d.isNaN then
    style.nan
  else
    match style.integer? d with
    | some n => intText n
    | none =>
      (if d.negative then "-" else "") ++
        if d.isInfinite then style.infinity else d.magnitudeText style.exponentWidth

example : (Double.ofDecimal false 1 (-7)).text .message = "1e-07" := by decide +kernel
example : (Double.ofDecimal false 1 (-7)).text .script = "1e-7" := by decide +kernel
example : (Double.ofDecimal true 0 0).text .message = "-0.0" := by decide +kernel
example : (Double.ofDecimal true 0 0).text .script = "0" := by decide +kernel
example : (Double.ofDecimal false 1 16).text .message = "1e+16" := by decide +kernel
example : (Double.ofDecimal false 15 20).text .script = "1.5e+21" := by decide +kernel
example : (Double.ofDecimal false 125 (-3)).text .script = "0.125" := by decide +kernel

end SchemaScript
