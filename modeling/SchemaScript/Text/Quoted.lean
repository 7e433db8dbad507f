/-!
# Quoted text

The double-quoted form of a text, in printable ASCII characters only.  It is read alike as a string
of JSON and as a string of a script.

A quotation mark and a backslash are written after a backslash.  The line feed, the carriage
return, the tab, the backspace and the form feed are written as a backslash and a letter.  Every
other character from the blank to the tilde stands for itself, and each remaining one is written by
its UTF-16 units, a unit as `\u` and four small hexadecimal digits.  So no quoted text holds a line
end, and no two texts have the same quoted form.
-/

namespace SchemaScript.Text

/-- The digit for a number below sixteen. -/
def hexDigit (n : Nat) : Char :=
  Char.ofNat (if n < 10 then 0x30 + n else 0x57 + n)

/-- A number in a fixed count of hexadecimal digits, the higher ones dropped. -/
def hex : Nat → Nat → List Char
  | 0, _ => []
  | width + 1, n => hex width (n / 16) ++ [hexDigit (n % 16)]

/-- A UTF-16 unit written with a backslash. -/
def escapedUnit (n : Nat) : List Char :=
  '\\' :: 'u' :: hex 4 n

/-- A character written by its UTF-16 units. -/
def escapedUnits (code : Nat) : List Char :=
  if code < 0x10000 then
    escapedUnit code
  else
    escapedUnit (0xd800 + (code - 0x10000) / 0x400) ++
      escapedUnit (0xdc00 + (code - 0x10000) % 0x400)

/-- The letter that follows the backslash in the short form of a character, if there is one. -/
def shortEscape? (c : Char) : Option Char :=
  if c.toNat = 0x22 then some '\x22'
  else if c = '\\' then some '\\'
  else if c = '\n' then some 'n'
  else if c = '\r' then some 'r'
  else if c = '\t' then some 't'
  else if c.toNat = 0x08 then some 'b'
  else if c.toNat = 0x0c then some 'f'
  else none

/-- The characters that stand for one character between the quotation marks. -/
def quotedChar (c : Char) : List Char :=
  match shortEscape? c with
  | some letter => ['\\', letter]
  | none => if 0x20 ≤ c.toNat ∧ c.toNat ≤ 0x7e then [c] else escapedUnits c.toNat

/-- The quoted form of a text. -/
def quoted (s : String) : String :=
  String.ofList ('\x22' :: s.toList.flatMap quotedChar ++ ['\x22'])

example : quoted "a\"b\n" = "\"a\\\"b\\n\"" := by decide +kernel
example : quoted "é😀" = "\"\\u00e9\\ud83d\\ude00\"" := by decide +kernel

end SchemaScript.Text
