import SchemaScript.Error
import SchemaScript.Expr.Basic
import SchemaScript.Number.Layout
import SchemaScript.Text.BlockComment
import SchemaScript.Text.Quoted

/-!
# Printing expressions

The text of an expression, given the indentation of the line on which it starts.

A literal on one line separates its parts by a comma and a blank, and an object literal sets a blank
inside its braces.  A literal with a line for each part indents these lines by four more blanks, and
its closing mark stands under the line on which it started.  A literal without parts is always a
pair of brackets or braces.  The parts of a one-line literal start on the line of the literal, so
they are printed at its indentation.

A key of an object literal is written bare if it is an identifier of ASCII, and quoted otherwise.
One line feed after an identifier does not count against it, and such a key is written bare with
the line feed.

The comment after a number is a block comment.

`Expr.print` is the text of every expression without a misfit.  `Expr.written` refuses an expression
with one: the first misfit in the order of the text is the cause.
-/

namespace SchemaScript

/-! ## Keys -/

/-- Whether an identifier of ASCII can start with a character. -/
def isIdentifierStart (c : Char) : Bool :=
  c.isAlpha || c == '_' || c == '$'

/-- Whether a character can go on in an identifier of ASCII. -/
def isIdentifierRest (c : Char) : Bool :=
  isIdentifierStart c || c.isDigit

/-- Whether only characters of an identifier follow, up to the end or a last line feed. -/
def isBareRest : List Char → Bool
  | [] => true
  | ['\n'] => true
  | c :: rest => isIdentifierRest c && isBareRest rest

/-- Whether a key is written without quotation marks. -/
def isBareKey : List Char → Bool
  | [] => false
  | c :: rest => isIdentifierStart c && isBareRest rest

/-- A key as it is written before its colon. -/
def propertyName (key : String) : String :=
  if isBareKey key.toList then key else Text.quoted key

/-! ## Expressions -/

/-- The digits of a number. -/
def Number.text : Number → String
  | .int n => intText n
  | .double d => d.text .script

/-- What follows a number with a comment. -/
def commentAfter : Option String → String
  | none => ""
  | some comment => " /*" ++ Text.commentText comment ++ "*/"

/-- Four blanks. -/
def innerIndent : String :=
  "    "

/-- The parts of a literal between its marks, on one line. -/
def onOneLine (opening closing : String) (parts : List String) : String :=
  opening ++ ", ".intercalate parts ++ closing

/-- The parts of a literal between its marks, on a line each. -/
def onManyLines (opening closing indent : String) (parts : List String) : String :=
  opening ++ "\n" ++ ",\n".intercalate (parts.map (indent ++ innerIndent ++ ·)) ++ "\n" ++ indent ++
    closing

namespace Expr

mutual

/-- The text of an expression that starts on a line of the given indentation. -/
def print (indent : String) : Expr → String
  | .ident name => name
  | .number value comment => value.text ++ commentAfter comment
  | .misfit _ => ""
  | .text s => Text.quoted s
  | .bool b => if b then "true" else "false"
  | .access base name => print indent base ++ "." ++ name
  | .arrow body => "() => " ++ print indent body
  | .array [] _ => "[]"
  | .array elements false => onOneLine "[" "]" (printAll indent elements)
  | .array elements true => onManyLines "[" "]" indent (printAll (indent ++ innerIndent) elements)
  | .object [] _ => "\x7b\x7d"
  | .object properties false => onOneLine "\x7b " " \x7d" (printProperties indent properties)
  | .object properties true =>
    onManyLines "\x7b" "\x7d" indent (printProperties (indent ++ innerIndent) properties)

/-- The texts of expressions in order. -/
def printAll (indent : String) : List Expr → List String
  | [] => []
  | e :: rest => print indent e :: printAll indent rest

/-- The texts of properties in order. -/
def printProperties (indent : String) : List (String × Expr) → List String
  | [] => []
  | (key, e) :: rest =>
    (propertyName key ++ ": " ++ print indent e) :: printProperties indent rest

end

theorem printAll_eq_map (indent : String) (es : List Expr) :
    printAll indent es = es.map (print indent) := by
  induction es with
  | nil => simp [printAll]
  | cons e rest ih => simp [printAll, ih]

theorem printProperties_eq_map (indent : String) (ps : List (String × Expr)) :
    printProperties indent ps =
      ps.map fun p => propertyName p.1 ++ ": " ++ print indent p.2 := by
  induction ps with
  | nil => simp [printProperties]
  | cons p rest ih => obtain ⟨key, e⟩ := p; simp [printProperties, ih]

/-- Why a value in place of a number has no text. -/
def misfitCause (value : Value) : Error :=
  match value.number? with
  | some _ => .tooManyDigits
  | none => .wrongKind .number value.kindName

/-- The text of an expression, if every number in it has one. -/
def written (indent : String) (e : Expr) : Except Error String :=
  match e.misfit? with
  | none => .ok (e.print indent)
  | some value => .error (misfitCause value)

end Expr

example : (Expr.number (.int 2) (some "a*/b")).print "" = "2 /*a*\\/b*/" := by decide +kernel
example : (Expr.object [("a", .bool true), ("b c", .array [] true)] false).print "" =
    "\x7b a: true, \"b c\": [] \x7d" := by decide +kernel

end SchemaScript
