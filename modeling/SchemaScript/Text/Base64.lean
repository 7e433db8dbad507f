/-!
# Base 64

Bytes as a text of sixty-four characters.  Three bytes make four characters of six bits each, the
highest bits first.  A last group of one or two bytes makes two or three characters, and equals
signs fill it up to four.
-/

namespace SchemaScript.Text

/-- The characters for the numbers below sixty-four. -/
def base64Alphabet : List Char :=
  "ABCDEFGHIJKLMNOPQRSTUVWXYZabcdefghijklmnopqrstuvwxyz0123456789+/".toList

/-- The character for the low six bits of a number. -/
def base64Digit (n : Nat) : Char :=
  (base64Alphabet[n % 64]?).getD '='

/-- The characters for bytes. -/
def base64Chars : List UInt8 → List Char
  | [] => []
  | [a] =>
    let n := a.toNat * 16
    [base64Digit (n / 64), base64Digit n, '=', '=']
  | [a, b] =>
    let n := (a.toNat * 256 + b.toNat) * 4
    [base64Digit (n / 4096), base64Digit (n / 64), base64Digit n, '=']
  | a :: b :: c :: rest =>
    let n := (a.toNat * 256 + b.toNat) * 256 + c.toNat
    base64Digit (n / 262144) :: base64Digit (n / 4096) :: base64Digit (n / 64) :: base64Digit n ::
      base64Chars rest

/-- Bytes in base 64. -/
def base64 (bytes : List UInt8) : String :=
  String.ofList (base64Chars bytes)

example : base64 [0x4d, 0x61, 0x6e, 0x4d] = "TWFuTQ==" := by decide +kernel

end SchemaScript.Text
