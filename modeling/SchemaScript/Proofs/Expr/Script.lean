import SchemaScript.Expr.Printer
import SchemaScript.Proofs.Text.Unquoted

/-!
# Reading script literals

A reader for the text of a literal in a script: the words `null`, `true` and `false`, decimal
integers, quoted texts, array literals, and object literals whose keys are identifiers or quoted
texts.  Blanks may stand around every part.

It knows the texts of scripts and nothing of how this library writes them.  A trailing comma, a
leading zero, a minus sign before zero, an unknown word and a lone surrogate are refused.  A key that
is repeated in an object literal takes the place of the first one and the value of the last.

Literals lie in each other as deep as they like, so the reader carries a number that falls with each
part it goes into.  Each part has a character of its own, and `Script.value?` starts with the length
of the text, so the number never runs out before the text does.
-/

namespace SchemaScript.Script

open Text

/-! ## Words and numbers -/

/-- Whether a character may stand around the parts of a literal. -/
def isBlank (c : Char) : Bool :=
  c == ' ' || c == '\t' || c == '\n' || c == '\r'

/-- What follows the blanks at the start. -/
def skipBlanks (chars : List Char) : List Char :=
  chars.dropWhile isBlank

/-- The identifier at the start, as long as it goes on, and what follows it. -/
def readName : List Char → Option (String × List Char)
  | [] => none
  | c :: rest =>
    if isIdentifierStart c then
      some (String.ofList (c :: rest.takeWhile isIdentifierRest), rest.dropWhile isIdentifierRest)
    else none

/-- The value that a word stands for. -/
def word? (name : String) : Option Value :=
  if name = "null" then some (.scalar .null)
  else if name = "true" then some (.scalar (.bool true))
  else if name = "false" then some (.scalar (.bool false))
  else none

/-- The number with the given digits, the first of which is no zero unless it is the only one. -/
def ofDigits? : List Char → Option Nat
  | [] => none
  | [c] => some (Nat.ofDigitChars 10 [c] 0)
  | c :: rest => if c = '0' then none else some (Nat.ofDigitChars 10 (c :: rest) 0)

/-- The number at the start, with all its digits, and what follows it. -/
def readNat (chars : List Char) : Option (Nat × List Char) :=
  (ofDigits? (chars.takeWhile Char.isDigit)).map fun n => (n, chars.dropWhile Char.isDigit)

/-- The number below zero whose digits follow the minus sign, and what follows it. -/
def readNegative (chars : List Char) : Option (Int × List Char) :=
  (readNat chars).bind fun p => if p.1 = 0 then none else some (-p.1, p.2)

/-- The key at the start, and what follows it. -/
def readKey : List Char → Option (String × List Char)
  | '\x22' :: rest => readText rest
  | chars => readName chars

/-! ## Values -/

mutual

/-- The value at the start, and what follows it. -/
def readValue : Nat → List Char → Option (Value × List Char)
  | 0, _ => none
  | fuel + 1, chars =>
    match skipBlanks chars with
    | '[' :: rest =>
      match skipBlanks rest with
      | ']' :: rest => some (.list [], rest)
      | rest => (readItems fuel rest).map fun p => (.list p.1, p.2)
    | '\x7b' :: rest =>
      match skipBlanks rest with
      | '\x7d' :: rest => some (.table [], rest)
      | rest => (readMembers fuel rest).map fun p => (.table (Value.tableOf p.1), p.2)
    | '\x22' :: rest => (readText rest).map fun p => (.text p.1, p.2)
    | '-' :: rest => (readNegative rest).map fun p => (.scalar (.int p.1), p.2)
    | rest =>
      match readName rest with
      | some (name, rest) => (word? name).map fun v => (v, rest)
      | none => (readNat rest).map fun p => (.scalar (.int p.1), p.2)

/-- The values up to the end of an array literal, and what follows it. -/
def readItems : Nat → List Char → Option (List Value × List Char)
  | 0, _ => none
  | fuel + 1, chars => do
    let (v, rest) ← readValue fuel chars
    match skipBlanks rest with
    | ',' :: rest => (readItems fuel rest).map fun p => (v :: p.1, p.2)
    | ']' :: rest => some ([v], rest)
    | _ => none

/-- The keys and values up to the end of an object literal, and what follows it. -/
def readMembers : Nat → List Char → Option (List (Value × Value) × List Char)
  | 0, _ => none
  | fuel + 1, chars => do
    let (key, rest) ← readKey (skipBlanks chars)
    match skipBlanks rest with
    | ':' :: rest =>
      let (v, rest) ← readValue fuel rest
      match skipBlanks rest with
      | ',' :: rest => (readMembers fuel rest).map fun p => ((.text key, v) :: p.1, p.2)
      | '\x7d' :: rest => some ([(.text key, v)], rest)
      | _ => none
    | _ => none

end

/-- The value that the whole of a text stands for. -/
def value? (text : String) : Option Value :=
  match readValue (text.toList.length + 1) text.toList with
  | some (v, rest) => if skipBlanks rest = [] then some v else none
  | none => none

example : value? "[ null, -12 ,\x7b a:\"\\u00e9\", \"b c\": [] \x7d]" =
    some (.list [.scalar .null, .scalar (.int (-12)),
      .table [(.text "a", .text "é"), (.text "b c", .list [])]]) := by
  decide +kernel
example : value? "[1,]" = none ∧ value? "01" = none ∧ value? "1 2" = none ∧
    value? "\"\\ud800\"" = none := by
  decide +kernel

end SchemaScript.Script
