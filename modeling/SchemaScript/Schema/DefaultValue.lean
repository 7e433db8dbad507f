import SchemaScript.Schema.Descriptor
import SchemaScript.Wire.Shape

/-!
# Default values

What a field holds as long as it is not set.

A descriptor gives the default value as a text: a number, `inf` or `nan`, the words `true` and
`false`, the name of a value of the enum, or the text itself.  A number is decimal, but an integer
that starts with a zero is octal, and one that starts with `0x` is hexadecimal.  Bytes are given
with escapes: a backslash and a letter, up to three octal digits, or the letter `x` and hexadecimal
digits.  Without a text an enum starts with its first value and every other type with its zero.
-/

namespace SchemaScript

open Wire

/-! ## Numbers -/

/-- The value of a digit, up to the letter `f`. -/
def digitValue (c : Char) : Nat :=
  if c.isDigit then c.toNat - '0'.toNat else c.toLower.toNat - 'a'.toNat + 10

/-- Whether a character is a hexadecimal digit. -/
def isHexDigit (c : Char) : Bool :=
  c.isDigit || ('a' ≤ c.toLower && c.toLower ≤ 'f')

/-- Whether a character is an octal digit. -/
def isOctalDigit (c : Char) : Bool :=
  '0' ≤ c && c ≤ '7'

/-- The number with digits in a base. -/
def ofDigits (base : Nat) (digits : List Char) : Nat :=
  digits.foldl (fun n c => n * base + digitValue c) 0

/-- The number of an integer without its sign, in the base that its start tells. -/
def magnitudeOf : List Char → Nat
  | '0' :: 'x' :: rest => ofDigits 16 (rest.takeWhile isHexDigit)
  | '0' :: 'X' :: rest => ofDigits 16 (rest.takeWhile isHexDigit)
  | '0' :: rest => ofDigits 8 (rest.takeWhile isOctalDigit)
  | cs => ofDigits 10 (cs.takeWhile Char.isDigit)

/-- Whether a number starts with a minus, and the rest of it without its sign. -/
def splitSign : List Char → Bool × List Char
  | '-' :: rest => (true, rest)
  | '+' :: rest => (false, rest)
  | cs => (false, cs)

/-- The integer with a sign and a magnitude. -/
def signedOf (negative : Bool) (magnitude : Nat) : Int :=
  if negative then -(magnitude : Int) else magnitude

/-- The integer of a text. -/
def integerOf (text : String) : Int :=
  let (negative, cs) := splitSign text.toList
  signedOf negative (magnitudeOf cs)

/-- The double of a text. -/
def doubleOf (text : String) : Double :=
  let (negative, cs) := splitSign text.toList
  if cs = "inf".toList then
    Double.infinite negative
  else if cs = "nan".toList then
    Double.nan
  else
    let mantissa := cs.takeWhile fun c => c != 'e' && c != 'E'
    let whole := mantissa.takeWhile (· != '.')
    let fraction := (mantissa.dropWhile (· != '.')).drop 1
    let (down, power) := splitSign (cs.drop (mantissa.length + 1))
    Double.ofDecimal negative (ofDigits 10 (whole ++ fraction))
      (signedOf down (ofDigits 10 power) - fraction.length)

/-- The single next to a double. -/
def singleOf (d : Double) : Single :=
  let magnitude :=
    if d.isNaN then BinaryFormat.single.infinity + 1
    else if d.isInfinite then BinaryFormat.single.infinity
    else Single.nearestMagnitude d
  ⟨UInt32.ofNat (if d.negative then magnitude + Nat.pow 2 31 else magnitude)⟩

/-! ## Bytes -/

/-- The letters of escapes, each with the code that it stands for. -/
def escapeLetters : List (Char × Nat) :=
  [('a', 7), ('b', 8), ('t', 9), ('n', 10), ('v', 11), ('f', 12), ('r', 13)]

/-- The byte of the escape after a backslash, and the characters after it. -/
def readEscape : List Char → List UInt8 × List Char
  | [] => ([], [])
  | c :: rest =>
    if isOctalDigit c then
      let digits := ((c :: rest).take 3).takeWhile isOctalDigit
      ([UInt8.ofNat (ofDigits 8 digits)], (c :: rest).drop digits.length)
    else if c = 'x' ∨ c = 'X' then
      let digits := rest.takeWhile isHexDigit
      ([UInt8.ofNat (ofDigits 16 digits)], rest.drop digits.length)
    else
      match escapeLetters.lookup c with
      | some code => ([UInt8.ofNat code], rest)
      | none => (c.toString.toUTF8.toList, rest)

/-- The bytes of characters with escapes, at most `steps` of them. -/
def unescapedWithin : Nat → List Char → List UInt8
  | 0, _ => []
  | _, [] => []
  | steps + 1, '\\' :: rest =>
    let (bytes, rest) := readEscape rest
    bytes ++ unescapedWithin steps rest
  | steps + 1, c :: rest => c.toString.toUTF8.toList ++ unescapedWithin steps rest

/-- The bytes of a text with escapes. -/
def unescaped (text : String) : List UInt8 :=
  unescapedWithin text.length text.toList

/-! ## Fields -/

/-- The datum of a scalar type in a text. -/
def scalarDatum (t : ScalarType) (text : String) : Datum :=
  match t with
  | .bool => .bool (text == "true")
  | .string => .text text
  | .bytes => .bytes (unescaped text)
  | .double => .double (doubleOf text)
  | .float => .single (singleOf (doubleOf text))
  | _ => .int (integerOf text)

/-- The number of the value of a name among values, or of the first of them. -/
def valueNumber (values : List EnumValueDescriptor) (name : Option String) : Int :=
  let first := (values.head?.map EnumValueDescriptor.number).getD 0
  ((name.bind fun s => values.find? fun v => v.name = s).map EnumValueDescriptor.number).getD first

/-- What a field of a type holds as long as it is not set.  The values are those of its enum. -/
def initialDatum (t : FieldType) (values : List EnumValueDescriptor) (text : Option String) :
    Datum :=
  match t with
  | .scalar s => (text.map (scalarDatum s)).getD (zero t)
  | .enumeration => .enum (valueNumber values text)
  | .message | .group => zero t

example : integerOf "-12" = -12 ∧ integerOf "0x1f" = 31 ∧ integerOf "010" = 8 := by decide +kernel
example : doubleOf "1.5e1" = Double.ofDecimal false 15 0 := by decide +kernel
example : unescaped "a\\n\\1012\\x41" = [97, 10, 65, 50, 65] := by decide +kernel

end SchemaScript
