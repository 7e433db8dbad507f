import SchemaScript.Error
import SchemaScript.Expr.Basic

/-!
# Literals for values

The literal expression that stands for a value.  Nothing is the name `null`, lists and tuples are
array literals, and tables are object literals in the order of their keys, all of them on one line.
A constant is written by its ordinal.  A key that is no text is written by its plain text, so two
keys of one table can become the same key of the literal.

`ofNumber` puts a value where a number is expected.  A value that stands for none is a misfit there.

Bytes, sets and objects have no literal, and no key has a text if an integer in it is too long to be
written.  The first of them in the order of the parts is the cause that ends the construction.  An
integer that is no key is not looked at before its literal is written.
-/

namespace SchemaScript.Expr

/-- The literal for a scalar. -/
def ofScalar : Scalar → Expr
  | .null => .ident "null"
  | .bool b => .bool b
  | .int n => .number (.int n) none
  | .double d => .number (.double d) none
  | .text s => .text s
  | .constant c => .number (.int c.ordinal) none

/-- The numeric literal with a value for its number. -/
def ofNumber (v : Value) (comment : Option String) : Expr :=
  match v with
  | .scalar (.double d) => .number (.double d) comment
  | _ =>
    match v.number? with
    | some n => .number (.int n) comment
    | none => .misfit v

/-- The text of a key. -/
def ofKey (key : Value) : Except Error String :=
  if key.isShort then .ok key.plain else .error .tooManyDigits

theorem ofKey_of_isShort {key : Value} (h : key.isShort = true) : ofKey key = .ok key.plain :=
  if_pos h

mutual

/-- The literal for a value. -/
def ofValue : Value → Except Error Expr
  | .scalar s => .ok (ofScalar s)
  | .list items => (ofValues items).map fun es => .array es false
  | .tuple items => (ofValues items).map fun es => .array es false
  | .table entries => (ofEntries entries).map fun ps => .object ps false
  | .bytes _ => .error (.unwritable .bytes)
  | .set => .error (.unwritable .set)
  | .object => .error (.unwritable .object)

/-- The literals for values in order. -/
def ofValues : List Value → Except Error (List Expr)
  | [] => .ok []
  | v :: rest => do
    let e ← ofValue v
    let es ← ofValues rest
    return e :: es

/-- The properties for the entries of a table in order. -/
def ofEntries : List (Value × Value) → Except Error (List (String × Expr))
  | [] => .ok []
  | (key, v) :: rest => do
    let name ← ofKey key
    let e ← ofValue v
    let ps ← ofEntries rest
    return (name, e) :: ps

end

end SchemaScript.Expr
